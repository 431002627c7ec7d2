/-
No placeholder is left that could have been resolved.

* `Turn.begin_clears`, `Turn.advance_clears` — every text that a turn shows has gone through the
  resolver with the context that the turn ends with, but for what is added when a line of input
  is not understood;
* `Manager.rendering` — so in every state, a message shows a placeholder that leads to a value
  exactly if that addition does.
-/
import Parley.Proofs.Manager.Requests
import Parley.Proofs.Placeholder
import Parley.Proofs.Turn.Invariant

namespace Parley

open Placeholder

/-- Every brace of the tree's texts belongs to a placeholder. -/
def Tree.IsTidy (t : Tree) : Prop :=
  ∀ n ∈ t.nodes.values, Tidy n.message.toList ∧ ∀ c ∈ n.choices, Tidy c.text.toList

instance (t : Tree) : Decidable t.IsTidy :=
  inferInstanceAs (Decidable (∀ n ∈ t.nodes.values, _))

/-- None of the choices shows a placeholder that leads to a value. -/
def Response.ClearChoices (root : Json) (r : Response) : Prop :=
  ∀ views, r.choices = some views → ∀ v ∈ views, ¬ Unresolved root v.text

/-- Nothing that is displayed shows a placeholder that leads to a value. -/
structure Response.Clears (root : Json) (r : Response) : Prop where
  message : Settled root r.message.toList
  choices : r.ClearChoices root

namespace Turn

variable {t : Turn} {p : Play} {r : Response} {n : Node} {nodeId : String}

/-- There are choices, and the line of input picks none. -/
def Misses (t : Turn) (p : Play) (n : Node) (input : String) : Prop :=
  (t.openChoices p.context n.choices p.taken).1 ≠ [] ∧
    selectChoice t.settings.numericSelection input
      (t.openChoices p.context n.choices p.taken).1 = none

theorem node_tidy (ht : t.tree.IsTidy) (hn : t.tree.node? nodeId = some n) :
    Tidy n.message.toList ∧ ∀ c ∈ n.choices, Tidy c.text.toList :=
  ht n (Dict.mem_values.mpr ⟨nodeId, hn⟩)

theorem views_clear {ctx : Context} (hroot : ctx.toJson.IsBraceFree) {choices : List Choice}
    (h : ∀ c ∈ choices, Tidy c.text.toList) (index : Nat) :
    ∀ v ∈ views ctx index choices, ¬ Unresolved ctx.toJson v.text := by
  induction choices generalizing index with
  | nil => exact fun v hv => absurd hv List.not_mem_nil
  | cons c rest ih =>
    obtain ⟨hc, hrest⟩ := List.forall_mem_cons.mp h
    exact List.forall_mem_cons.mpr
      ⟨not_unresolvedIn (settled_resolve hroot hc), ih hrest (index + 1)⟩

theorem respond_clears (hn : Tidy n.message.toList ∧ ∀ c ∈ n.choices, Tidy c.text.toList)
    (hroot : (t.respond p n).1.context.toJson.IsBraceFree) :
    (t.respond p n).2.Clears (t.respond p n).1.context.toJson := by
  replace hroot : p.context.toJson.IsBraceFree := hroot
  refine ⟨settled_resolve hroot hn.1, fun shown hshown v hv => ?_⟩
  have open_tidy : ∀ c ∈ (t.openChoices p.context n.choices p.taken).1, Tidy c.text.toList :=
    fun c hc => hn.2 c (mem_openChoices hc)
  have choices : (t.respond p n).2.choices = some shown → shown =
      views p.context 1 (t.openChoices p.context n.choices p.taken).1 := by
    intro h
    rw [respond] at h
    dsimp only at h
    split at h
    · dsimp only at h
      split at h
      · exact absurd h (by simp)
      · exact (Option.some.inj h).symm
    · exact absurd h (by simp)
  rw [choices hshown] at hv
  exact views_clear hroot open_tidy 1 v hv

theorem farewell_clears (hfarewell : Tidy t.settings.farewellMessage.toList)
    (hroot : (t.farewell p).1.context.toJson.IsBraceFree) :
    (t.farewell p).2.Clears (t.farewell p).1.context.toJson :=
  ⟨settled_resolve hroot hfarewell, nofun⟩

theorem proceed_clears (ht : t.tree.IsTidy) (hfarewell : Tidy t.settings.farewellMessage.toList)
    {target : Option String} {input : String} (hr : (t.proceed p target input).2 = .ok r)
    (hroot : (t.proceed p target input).1.context.toJson.IsBraceFree) :
    r.Clears (t.proceed p target input).1.context.toJson := by
  rw [proceed] at hr hroot ⊢
  cases htarget : target.filter (!·.isEmpty) with
  | none =>
    simp only [htarget] at hr hroot ⊢
    obtain rfl := Except.ok.inj hr
    exact farewell_clears hfarewell hroot
  | some nodeId =>
    cases hnode : t.node nodeId with
    | error e =>
      simp only [htarget, hnode] at hr
      exact absurd hr (by simp)
    | ok n =>
      simp only [htarget, hnode] at hr hroot ⊢
      obtain rfl := Except.ok.inj hr
      exact respond_clears (node_tidy ht (Keeps.node_ok hnode)) hroot

theorem begin_clears (ht : t.tree.IsTidy) (hr : (t.begin p).2 = .ok r)
    (hroot : (t.begin p).1.context.toJson.IsBraceFree) :
    r.Clears (t.begin p).1.context.toJson := by
  rw [begin] at hr hroot ⊢
  cases hnode : t.node p.conversation.currentNodeId with
  | error e =>
    simp only [hnode] at hr
    exact absurd hr (by simp)
  | ok n =>
    simp only [hnode] at hr hroot ⊢
    obtain rfl := Except.ok.inj hr
    exact respond_clears (node_tidy ht (Keeps.node_ok hnode)) hroot

/-- After a line of input the message shows a placeholder that leads to a value exactly if the line
was not understood and what is added then shows one. -/
theorem advance_clears (ht : t.tree.IsTidy) (hfarewell : Tidy t.settings.farewellMessage.toList)
    (hn : t.tree.node? p.conversation.currentNodeId = some n) {input : String}
    (hr : (t.advance p input).2 = .ok r)
    (hroot : (t.advance p input).1.context.toJson.IsBraceFree) :
    (Unresolved (t.advance p input).1.context.toJson r.message ↔
      t.Misses p n input ∧
        Unresolved (t.advance p input).1.context.toJson t.settings.notUnderstoodSuffix) ∧
    r.ClearChoices (t.advance p input).1.context.toJson := by
  have understood (hunderstood : ¬ t.Misses p n input)
      (hclears : r.Clears (t.advance p input).1.context.toJson) :
      (Unresolved (t.advance p input).1.context.toJson r.message ↔
        t.Misses p n input ∧
          Unresolved (t.advance p input).1.context.toJson t.settings.notUnderstoodSuffix) ∧
      r.ClearChoices (t.advance p input).1.context.toJson :=
    ⟨⟨fun h => absurd h (not_unresolvedIn hclears.message), fun h => absurd h.1 hunderstood⟩,
      hclears.choices⟩
  rcases advance_cases hn input with ⟨hempty, hgo⟩ | ⟨c, hc, hgo⟩ | ⟨hopen, hnone, hgo⟩
  · refine understood (fun hmisses => hmisses.1 hempty) ?_
    rw [hgo] at hr hroot ⊢
    exact proceed_clears ht hfarewell hr hroot
  · refine understood (fun hmisses => ?_) ?_
    · exact absurd (hmisses.2.symm.trans hc) nofun
    · rw [hgo] at hr hroot ⊢
      exact proceed_clears ht hfarewell hr hroot
  · rw [hgo] at hr hroot ⊢
    obtain rfl := Except.ok.inj hr
    have clears := respond_clears (node_tidy ht hn) hroot
    refine ⟨?_, clears.choices⟩
    rw [Unresolved, askAgain, String.toList_append, unresolvedIn_append_iff clears.message]
    exact ⟨fun h => ⟨⟨hopen, hnone⟩, h⟩, And.right⟩

end Turn

namespace Manager

variable {m : Manager}

/-- In every state, whatever a start answers, and whatever a line of input is answered, shows no
placeholder that leads to a value in the context that the turn ends with; only what is added to a
message when the line was not understood is shown as it was written. -/
theorem rendering (hm : m.Reachable) (ps : Participants) :
    (∀ providerId r, (m.start ps providerId).result.response = .ok r →
      ∃ p tree play, m.Opens ps providerId p tree play r ∧
        (tree.IsTidy → play.context.toJson.IsBraceFree →
          ¬ Unresolved play.context.toJson r.message ∧ r.ClearChoices play.context.toJson)) ∧
    ∀ id input r, (m.advance ps id input).result.response = .ok r →
      ∃ c p tree n play, m.Proceeds ps id input c p tree n play r ∧
        (tree.IsTidy → Tidy m.forum.settings.farewellMessage.toList →
          play.context.toJson.IsBraceFree →
          (Unresolved play.context.toJson r.message ↔
            (p.turn m.forum tree).Misses (Play.ofConversation (c.touch m.now) ps p.taken) n input ∧
              Unresolved play.context.toJson m.forum.settings.notUnderstoodSuffix) ∧
          r.ClearChoices play.context.toJson) := by
  refine ⟨fun providerId r hr => ?_, fun id input r hr => ?_⟩
  · obtain ⟨p, tree, play, opens⟩ := start_ok hm.sound hr
    refine ⟨p, tree, play, opens, fun ht hroot => ?_⟩
    have clears := Turn.begin_clears (t := p.turn m.forum tree) ht (congrArg Prod.snd opens.begins)
    rw [opens.begins] at clears
    exact ⟨not_unresolvedIn (clears hroot).message, (clears hroot).choices⟩
  · obtain ⟨c, p, tree, n, play, proceeds⟩ := advance_ok hm.sound hr
    refine ⟨c, p, tree, n, play, proceeds, fun ht hfarewell hroot => ?_⟩
    have clears := Turn.advance_clears (t := p.turn m.forum tree)
      (p := Play.ofConversation (c.touch m.now) ps p.taken) ht hfarewell proceeds.node
      (congrArg Prod.snd proceeds.advances)
    rw [proceeds.advances] at clears
    exact clears hroot

end Manager

/-! ### At the door of the inn

Its doorman greets everyone by name, and may repeat the name when he did not understand. -/

namespace Inn

def door : Node :=
  { id := "door"
    message := "Good evening, {{player.name}}."
    choices := [{ id := "in", text := "It is {{ npc.id }}!", nextNodeId := some "" }] }

def threshold : Tree :=
  { id := "threshold"
    name := "Threshold"
    startNodeId := "door"
    nodes := Dict.ofList [("door", door)] }

def doorman : Provider :=
  (Provider.edit { id := "doorman" } (.replaceTree threshold)).edit (.mapNpc "Bob" "threshold")

def visitor : Participants := { player := { id := "guest", name := "Ada" }, npc := { id := "Bob" } }

/-- The doorman at work, with what he adds when he did not understand. -/
def doorway (suffix : String) : Manager :=
  ((Manager.new { notUnderstoodSuffix := suffix } ids Instant.epoch none).perform
    (.register doorman)).1

def greeted (suffix : String) : Manager := ((doorway suffix).perform (.start visitor none)).1

def visit : Conversation :=
  { Conversation.new "" "guest" "Bob" "doorman" threshold Instant.epoch with history := ["door"] }

theorem threshold_tidy : threshold.IsTidy := by decide +kernel

theorem doorway_reachable (suffix : String) : (doorway suffix).Reachable := by
  refine .call (.register doorman) (fun p hp => ?_) (.new _ _ _ _ _)
  obtain rfl := List.mem_singleton.mp hp
  exact .edit (.mapNpc "Bob" "threshold") (.edit (.replaceTree threshold) (.new _ _ _ _ _))

theorem greeted_provider (suffix : String) :
    (greeted suffix).providers.get? "doorman" = some doorman := by
  have setup : (doorway suffix).SameSetup (greeted suffix) :=
    Manager.start_setup (doorway_reachable suffix).sound
      (show (doorway "").Chanceless by decide +kernel) visitor none
  rw [setup.providers]
  rfl

theorem greeted_reachable (suffix : String) : (greeted suffix).Reachable :=
  (doorway_reachable suffix).perform (.start visitor none) rfl

end Inn

namespace Manager

/-- The doorman has nothing to repeat, and the visitor hears no placeholder. -/
theorem rendering_doorway :
    let m := Inn.greeted "?"
    ∃ r play, (m.advance Inn.visitor "" "xyz").result.response = .ok r ∧
      m.Proceeds Inn.visitor "" "xyz" Inn.visit Inn.doorman Inn.threshold Inn.door play r ∧
      r.message = "Good evening, Ada.?" ∧
      ¬ Unresolved play.context.toJson r.message ∧ r.ClearChoices play.context.toJson := by
  intro m
  have message : (m.advance Inn.visitor "" "xyz").result.response.toOption.map Response.message =
      some "Good evening, Ada.?" := by decide +kernel
  cases hr : (m.advance Inn.visitor "" "xyz").result.response with
  | error e => exact absurd (hr ▸ message) nofun
  | ok r =>
    have heard : r.message = "Good evening, Ada.?" := by
      rw [hr] at message
      exact Option.some.inj message
    obtain ⟨c, p, tree, n, play, proceeds, clears⟩ :=
      (rendering (Inn.greeted_reachable "?") Inn.visitor).2 "" "xyz" r hr
    have held : m.arena.get? "" = some Inn.visit := by decide +kernel
    obtain rfl := Option.some.inj (held.symm.trans proceeds.held)
    obtain rfl := Option.some.inj ((Inn.greeted_provider "?").symm.trans proceeds.provider)
    have installed : Inn.doorman.trees.get? "threshold" = some Inn.threshold := by decide
    obtain rfl := Option.some.inj (installed.symm.trans proceeds.installed)
    have node : Inn.threshold.node? "door" = some Inn.door := by decide
    obtain rfl := Option.some.inj (node.symm.trans proceeds.node)
    have braceFree : play.context.toJson.IsBraceFree := by
      have left : ((Inn.doorman.turn m.forum Inn.threshold).advance
          (Play.ofConversation (Inn.visit.touch m.now) Inn.visitor 0) "xyz").1 = play :=
        congrArg Prod.fst proceeds.advances
      rw [← left]
      decide +kernel
    obtain ⟨missed, choices⟩ := clears Inn.threshold_tidy (by decide +kernel) braceFree
    refine ⟨r, play, rfl, proceeds, heard, fun h => ?_, choices⟩
    obtain ⟨-, content, -, -, hshown⟩ := missed.mp h
    have brace : '\x7b' ∈ m.forum.settings.notUnderstoodSuffix.toList :=
      hshown.subset List.mem_cons_self
    exact absurd brace (by decide +kernel)

/-- A visitor whom the doorman does not understand hears a placeholder. -/
theorem rendering_unheard :
    let m := Inn.greeted " ({{player.name}})"
    m.Reachable ∧ Inn.threshold.IsTidy ∧ Inn.threshold.defects = [] ∧
    Tidy m.forum.settings.notUnderstoodSuffix.toList ∧
    Tidy m.forum.settings.farewellMessage.toList ∧
    ∃ play r, m.Proceeds Inn.visitor "" "xyz" Inn.visit Inn.doorman Inn.threshold Inn.door play r ∧
      play.context.toJson.IsBraceFree ∧
      r.message = "Good evening, Ada. ({{player.name}})" ∧
      Unresolved play.context.toJson r.message := by
  intro m
  let turn := Inn.doorman.turn m.forum Inn.threshold
  let before := Play.ofConversation (Inn.visit.touch m.now) Inn.visitor 0
  have message : (turn.advance before "xyz").2.toOption.map Response.message =
      some "Good evening, Ada. ({{player.name}})" := by decide +kernel
  cases hr : (turn.advance before "xyz").2 with
  | error e => exact absurd (hr ▸ message) nofun
  | ok r =>
    have heard : r.message = "Good evening, Ada. ({{player.name}})" := by
      rw [hr] at message
      exact Option.some.inj message
    refine ⟨Inn.greeted_reachable _, Inn.threshold_tidy, by decide, by decide +kernel,
      by decide +kernel, (turn.advance before "xyz").1, r, ?_, by decide +kernel, heard, ?_⟩
    · exact {
        held := by decide +kernel
        owner := rfl
        live := by decide +kernel
        provider := Inn.greeted_provider _
        installed := by decide
        node := by decide
        advances := Prod.ext rfl hr }
    · refine ⟨"player.name".toList, by decide, by decide +kernel, ?_⟩
      rw [heard]
      exact ⟨"Good evening, Ada. (".toList, ")".toList, by decide⟩

end Manager
end Parley
