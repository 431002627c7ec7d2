/-
What a turn holds and announces can be written.

* `Scene.IsSound.setVariable`, `Scene.IsSound.execute` — where the content can be written, so can
  what its effects leave and announce;
* `Turn.keeps_isSound` — and so can everything that a turn does to a play.

Design notes: a custom action is asked only to leave a context that can be written if it was
given one.
-/
import Parley.Proofs.Document.Heard
import Parley.Proofs.Document.Snapshots
import Parley.Proofs.Turn.Invariant

namespace Parley

def Hook.IsSound (run : Hook) : Prop :=
  ∀ name params ctx, params.IsCanonical → ctx.IsSound → (run name params ctx).1.IsSound

structure Scene.IsSound (s : Scene) : Prop where
  context : s.context.IsSound
  events : ∀ e ∈ s.events, e.IsSound

structure Play.IsSound (p : Play) : Prop where
  scene : p.toScene.IsSound
  conversation : p.conversation.IsSound

/-! ### Events and conversations -/

theorem Occurrence.isSound_of_not_isEffect {o : Occurrence} (h : o.isEffect = false) : o.IsSound := by
  cases o with
  | actionExecuted | variableChanged => exact absurd h (by simp [isEffect])
  | _ => trivial

namespace Conversation.IsSound

variable {c : Conversation} {now : Instant}

theorem new {tree : Tree} (htree : tree.IsSound) (hnow : now.IsValid)
    (id playerId npcId providerId : String) :
    (Conversation.new id playerId npcId providerId tree now).IsSound :=
  ⟨hnow, hnow, Nat.zero_le _, htree.vars⟩

theorem touch (h : c.IsSound) (hnow : now.IsValid) : (c.touch now).IsSound :=
  ⟨h.startedAt, hnow, Nat.min_le_right _ _, h.vars⟩

theorem scope (h : c.IsSound) : (Scope.ofConversation c).IsSound :=
  ⟨h.startedAt, h.lastActivity, h.turnCount, h.vars⟩

/-- An end is announced at its time. -/
theorem conclude (h : c.IsSound) (reason : EndReason) (hnow : now.IsValid) :
    (c.conclude reason now).1.IsSound ∧ ∀ e ∈ (c.conclude reason now).2, e.IsSound := by
  rw [Conversation.conclude, finish?]
  split
  · rename_i hended
    obtain ⟨-, hended⟩ := Option.ite_none_right_eq_some.mp hended
    obtain rfl := Option.some.inj hended
    exact ⟨⟨h.startedAt, h.lastActivity, h.turnCount, h.vars⟩,
      List.forall_mem_singleton.mpr ⟨hnow, trivial⟩⟩
  · exact ⟨h, fun _ he => absurd he List.not_mem_nil⟩

end Conversation.IsSound

theorem Play.isSound_ofConversation {c : Conversation} (hc : c.IsSound) {ps : Participants}
    (hps : ps.IsSound) (taken : Nat) : (Play.ofConversation c ps taken).IsSound :=
  ⟨⟨⟨hps.player, hps.npc, hc.scope, hps.world⟩, fun _ he => absurd he List.not_mem_nil⟩, hc⟩

/-! ### Effects -/

namespace Scene.IsSound

variable {s : Scene}

theorem publish (h : s.IsSound) {o : Occurrence} (ho : o.IsSound) : (s.publish o).IsSound := by
  refine ⟨h.context, fun e he => ?_⟩
  rcases List.mem_append.mp he with he | he
  · exact h.events e he
  · obtain rfl := List.mem_singleton.mp he
    exact ⟨h.context.scope.lastActivity, ho⟩

theorem withPlayer (h : s.IsSound) {player : Player} (hplayer : player.IsSound) :
    (s.withPlayer player).IsSound :=
  ⟨⟨hplayer, h.context.npc, h.context.scope, h.context.world⟩, h.events⟩

theorem setVariable (h : s.IsSound) (name : String) {value : Json} (hvalue : value.IsCanonical) :
    (s.setVariable name value).IsSound := by
  have written : (s.withScope { s.context.conversation with
      vars := s.context.conversation.vars.insert name value }).IsSound :=
    { context := {
        player := h.context.player
        npc := h.context.npc
        scope := {
          startedAt := h.context.scope.startedAt
          lastActivity := h.context.scope.lastActivity
          turnCount := h.context.scope.turnCount
          vars := Dict.forall_values_insert h.context.scope.vars name hvalue }
        world := h.context.world }
      events := h.events }
  rw [Scene.setVariable]
  split
  · exact written
  · refine written.publish ⟨fun before hbefore => ?_, hvalue⟩
    exact Dict.forall_get?_iff.mpr h.context.scope.vars name before hbefore

theorem callHook (h : s.IsSound) (name : String) {params : Json} (hparams : params.IsCanonical)
    {hook : Option Hook} (hhook : ∀ run ∈ hook, run.IsSound) :
    (s.callHook name params hook).2.IsSound := by
  cases hook with
  | none => exact h
  | some run => exact ⟨hhook run rfl name params s.context hparams h.context, h.events⟩

theorem apply (h : s.IsSound) {hook : Option Hook} (hhook : ∀ run ∈ hook, run.IsSound)
    {e : Effect} (he : e.IsSound) : (e.apply hook s).2.IsSound := by
  have flagged {player : Player} (hp : player = { s.context.player with flags := player.flags }) :
      (s.withPlayer player).IsSound := by
    rw [hp]
    exact h.withPlayer { h.context.player with }
  cases e with
  | setVariable name value => exact h.setVariable name he
  | addFlag flag =>
    refine flagged ?_
    rw [Player.addFlag]
    split <;> rfl
  | removeFlag flag => exact flagged rfl
  | custom name params => exact h.callHook name he hhook
  | giveItem | takeItem | startQuest | completeQuest | unknown => exact h

theorem execute (h : s.IsSound) {rules : Rules} (hhook : ∀ run ∈ rules.hook, run.IsSound)
    {a : Action} (ha : a.IsSound) : (a.execute rules s).2.IsSound := by
  have asked : Scene.IsSound
      { s with taken := (allows rules s.context a.condition s.taken).2 } :=
    ⟨h.context, h.events⟩
  have applied := asked.apply hhook ha.effect
  rw [Action.execute]
  simp only
  split
  · split
    · exact applied.publish ⟨ha, Context.isCanonical_toJson applied.context⟩
    · exact applied
  · exact asked

end Scene.IsSound

/-! ### Turns -/

namespace Tree.IsSound

variable {t : Tree}

theorem node (h : t.IsSound) {nodeId : String} {n : Node} (hn : t.node? nodeId = some n) : n.IsSound :=
  h.nodes n (Dict.mem_values.mpr ⟨nodeId, hn⟩)

theorem action (h : t.IsSound) {a : Action} (ha : t.HasAction a) : a.IsSound := by
  obtain ⟨nodeId, n, hn, hmem⟩ := ha
  have sound := h.node hn
  rcases List.mem_append.mp hmem with hmem | hmem
  · exact sound.actions a hmem
  · obtain ⟨c, hc, hmem⟩ := List.mem_flatMap.mp hmem
    exact (sound.choices c hc).actions a hmem

theorem value (h : t.IsSound) {value : Json} (hvalue : t.HasValue value) : value.IsCanonical := by
  obtain ⟨nodeId, n, hn, hmem⟩ := hvalue
  exact (h.node hn).vars value hmem

end Tree.IsSound

/-- On a tree that can be written, a turn leaves and announces what can be written. -/
theorem Turn.keeps_isSound {t : Turn} (htree : t.tree.IsSound)
    (hhook : ∀ run ∈ t.rules.hook, run.IsSound) (hnow : t.rules.now.IsValid) :
    t.Keeps Play.IsSound where
  moveTo p nodeId h :=
    { scene := {
        context := {
          player := h.scene.context.player
          npc := h.scene.context.npc
          scope := { h.scene.context.scope with }
          world := h.scene.context.world }
        events := h.scene.events }
      conversation := { h.conversation with } }
  draw p c _ h := ⟨⟨h.scene.context, h.scene.events⟩, h.conversation⟩
  setVariable p name value hvalue h := ⟨h.scene.setVariable name (htree.value hvalue), h.conversation⟩
  execute p a ha h := ⟨h.scene.execute hhook (htree.action ha), h.conversation⟩
  publish p o ho h := ⟨h.scene.publish (Occurrence.isSound_of_not_isEffect ho), h.conversation⟩
  conclude p h := by
    obtain ⟨ended, announced⟩ := h.conversation.conclude .completed hnow
    refine ⟨⟨h.scene.context, fun e he => ?_⟩, ended⟩
    rcases List.mem_append.mp he with he | he
    · exact h.scene.events e he
    · exact announced e he
  sync p h :=
    { scene := h.scene
      conversation := {
        startedAt := h.conversation.startedAt
        lastActivity := h.conversation.lastActivity
        turnCount := h.conversation.turnCount
        vars := h.scene.context.scope.vars } }

end Parley
