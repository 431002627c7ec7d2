/-
Turns on a valid tree cannot fail.

A turn fails only at a node that its tree does not have.  Validation looks at every target that
an author wrote, and a turn goes to no others, whatever its conditions and actions do:

* `Turn.begin_lands`, `Turn.advance_lands` — a turn on a valid tree is answered, and comes to a
  node of the tree again;
* `Manager.RestsOn`, `Manager.Installs` — a conversation is at a node of a tree, and has the tree
  for its own;
* `Manager.RestsOn.perform`, `Manager.RestsOn.run` — it stays on the tree while it has it;
* `Manager.progress` — so no line of input, after any calls, fails for want of a node.

Design notes: between two turns a conversation may be handed to another provider and its tree
edited, so that it has the tree is asked after each call and not once.
-/
import Parley.Proofs.Manager.Held

namespace Parley

/-! ### One turn -/

/-- The turn is answered, and its conversation is at a node of the tree then. -/
structure Turn.Lands (t : Turn) (outcome : Play × Except DialogueError Response) : Prop where
  answered : ∃ r, outcome.2 = .ok r
  node : t.tree.nodes.contains outcome.1.conversation.currentNodeId = true

namespace Turn

variable {t : Turn} {p : Play}

theorem begin_lands (ht : t.tree.Valid)
    (hstart : p.conversation.currentNodeId = t.tree.startNodeId)
    (hactive : p.conversation.isActive = true) : t.Lands (t.begin p) := by
  obtain ⟨p', r, hbegin, -⟩ := begin_played (steady_unit t.rules.hook) ht hstart hactive
  have hr : (t.begin p).2 = .ok r := congrArg Prod.snd hbegin
  obtain ⟨n, hn, hplace, -⟩ := begin_place hactive hr
  obtain ⟨-, hcurrent⟩ := Prod.mk.inj hplace
  refine ⟨⟨r, hr⟩, ?_⟩
  rw [hcurrent]
  exact Dict.contains_of_get? hn

/-- The turn stays where it is, or comes to a node that was looked up. -/
theorem advance_lands (ht : t.tree.Valid) (hactive : p.conversation.isActive = true)
    (hnode : t.tree.nodes.contains p.conversation.currentNodeId = true) (input : String) :
    t.Lands (t.advance p input) := by
  obtain ⟨n, hn⟩ := Option.isSome_iff_exists.mp hnode
  obtain ⟨p', r, hadvance, -⟩ := advance_played (steady_unit t.rules.hook) ht hn hactive input
  have hr : (t.advance p input).2 = .ok r := congrArg Prod.snd hadvance
  refine ⟨⟨r, hr⟩, ?_⟩
  cases advance_moves hn hactive hr with
  | stays hplace | departs _ _ hplace =>
    obtain ⟨-, hcurrent⟩ := Prod.mk.inj hplace
    rw [hcurrent]
    exact hnode
  | arrives _ _ hn' hplace =>
    obtain ⟨-, hcurrent⟩ := Prod.mk.inj hplace
    rw [hcurrent]
    exact Dict.contains_of_get? hn'

end Turn

namespace Manager

variable {α : Type} {f : Context → α} {m : Manager} {id : String} {tree : Tree}

/-! ### Conversations on a tree -/

/-- Whatever is held under the id is at a node of `tree`. -/
def RestsOn (m : Manager) (id : String) (tree : Tree) : Prop :=
  ∀ c, m.arena.get? id = some c → tree.nodes.contains c.currentNodeId = true

/-- Whatever is held under the id has `tree` for its own. -/
def Installs (m : Manager) (id : String) (tree : Tree) : Prop :=
  ∀ c, m.arena.get? id = some c → m.treeOf? c = some tree

/-- So it is now and after each call of a run. -/
def InstallsThroughout (m : Manager) (id : String) (tree : Tree) : List Call → Prop
  | [] => m.Installs id tree
  | call :: rest => m.Installs id tree ∧ (m.perform call).1.InstallsThroughout id tree rest

instance (m : Manager) (id : String) (tree : Tree) : Decidable (m.RestsOn id tree) :=
  inferInstanceAs (Decidable (∀ c ∈ m.arena.get? id, _ = true))

instance (m : Manager) (id : String) (tree : Tree) : Decidable (m.Installs id tree) :=
  inferInstanceAs (Decidable (∀ c ∈ m.arena.get? id, m.treeOf? c = some tree))

instance decidableInstallsThroughout (m : Manager) (id : String) (tree : Tree) :
    (cs : List Call) → Decidable (m.InstallsThroughout id tree cs)
  | [] => inferInstanceAs (Decidable (m.Installs id tree))
  | call :: rest =>
    have := decidableInstallsThroughout (m.perform call).1 id tree rest
    inferInstanceAs (Decidable (m.Installs id tree ∧ _))

theorem InstallsThroughout.now {cs : List Call} (h : m.InstallsThroughout id tree cs) :
    m.Installs id tree := by
  cases cs with
  | nil => exact h
  | cons => exact h.1

theorem InstallsThroughout.run {cs : List Call} (h : m.InstallsThroughout id tree cs) :
    (m.run cs).1.Installs id tree := by
  induction cs generalizing m with
  | nil => exact h
  | cons call rest ih => exact ih h.2

theorem RestsOn.playable (h : m.RestsOn id tree) (hinstalls : m.Installs id tree) :
    m.Playable id := by
  intro c p hc hp
  obtain ⟨n, hn⟩ := Option.isSome_iff_exists.mp (h c hc)
  exact ⟨tree, n, (treeOf?_eq hp).symm.trans (hinstalls c hc), hn⟩

theorem contains_of_plays {p : Provider} {c : Conversation} (h : p.Plays c)
    (htree : p.trees.get? c.treeId = some tree) :
    tree.nodes.contains c.currentNodeId = true := by
  obtain ⟨tree', n, htree', hn⟩ := h
  obtain rfl : tree' = tree := Option.some.inj (htree'.symm.trans htree)
  exact Dict.contains_of_get? hn

/-- A conversation that has begun has the tree that it began on. -/
theorem Opens.treeOf? {ps : Participants} {providerId : Option String} {p : Provider}
    {play : Play} {r : Response} (hm : m.Sound f) (h : m.Opens ps providerId p tree play r) :
    (m.start ps providerId).manager.treeOf? play.conversation = some tree := by
  have hprovider : play.conversation.providerId = p.id := (h.played hm).continues.providerId
  -- What the turn drew from the provider takes nothing from its trees.
  have drawn : (m.start ps providerId).manager.providers.get? play.conversation.providerId =
      some { p with taken := play.taken } := by
    rw [h.start_eq, hprovider]
    show (m.providers.modify p.id _).get? p.id = _
    rw [Dict.get?_modify, if_pos rfl, (h.registered hm).1]
    rfl
  have installed := h.installed hm
  exact (treeOf?_eq drawn).trans installed

/-- A call keeps a conversation on its tree if it leaves the tree to it. -/
theorem RestsOn.perform (h : m.RestsOn id tree) (hm : m.Sound f) {call : Call}
    (hlaunch : call.isLaunch = false) (hbefore : m.Installs id tree)
    (hafter : (m.perform call).1.Installs id tree) : (m.perform call).1.RestsOn id tree := by
  intro c' hc'
  have own := hafter c' hc'
  cases perform_holding hm hlaunch hc' with
  | kept _ hc => exact h c' hc
  | handed providerId hc =>
    have before := h _ hc
    exact before
  | began opens _ =>
    -- A start may give the id again only on the tree that is installed.
    obtain rfl := Option.some.inj ((opens.treeOf? hm).symm.trans own)
    exact contains_of_plays (opens.plays hm) (opens.installed hm)
  | spoke proceeds =>
    have known := (treeOf?_eq proceeds.provider).symm.trans (hbefore _ proceeds.held)
    have same : _ = _ := (proceeds.played hm).continues.treeId
    exact contains_of_plays (proceeds.plays hm) (same ▸ known)

theorem RestsOn.run (h : m.RestsOn id tree) (hm : m.Reachable) {cs : List Call}
    (hcs : ∀ call ∈ cs, call.isLaunch = false ∧ ∀ p ∈ call.providers, p.Authored)
    (hinstalls : m.InstallsThroughout id tree cs) : (m.run cs).1.RestsOn id tree := by
  induction cs generalizing m with
  | nil => exact h
  | cons call rest ih =>
    obtain ⟨hlaunch, hproviders⟩ := hcs call List.mem_cons_self
    obtain ⟨hbefore, hrest⟩ := hinstalls
    exact ih (h.perform hm.sound hlaunch hbefore hrest.now) (.call call hproviders hm)
      (fun call' hmem => hcs call' (List.mem_cons_of_mem call hmem)) hrest

/-- **On a valid tree no turn fails.**  The first turn and every later one are answered and come
to a node of the tree, under any rules, settings and context.  So a conversation that has begun
is at a node of its tree, and while it has that tree no line of input, after any calls at all,
fails for want of the tree or of a node: its player is answered until it times out. -/
theorem progress :
    (∀ t : Turn, t.tree.validate = .ok () →
      (∀ (p : Play) id playerId npcId providerId now,
        p.conversation = Conversation.new id playerId npcId providerId t.tree now →
        t.Lands (t.begin p)) ∧
      ∀ (p : Play) input, p.conversation.isActive = true →
        t.tree.nodes.contains p.conversation.currentNodeId = true →
        t.Lands (t.advance p input)) ∧
    ∀ m : Manager, m.Reachable →
      (∀ ps providerId r, m.arena.contains m.forum.ids.next = false →
        (m.start ps providerId).result.response = .ok r →
        ∃ tree : Tree, tree.validate = .ok () ∧
          (m.start ps providerId).manager.Installs r.conversationId tree ∧
          (m.start ps providerId).manager.RestsOn r.conversationId tree) ∧
      ∀ id tree, m.RestsOn id tree → ∀ cs : List Call,
        (∀ call ∈ cs, call.isLaunch = false ∧ ∀ p ∈ call.providers, p.Authored) →
        m.InstallsThroughout id tree cs →
        let m' := (m.run cs).1
        m'.RestsOn id tree ∧ ∀ ps input,
          let response := (m'.advance ps id input).result.response
          (∀ treeId nodeId, response ≠ .error (.treeNotFound treeId) ∧
            response ≠ .error (.nodeNotFound treeId nodeId)) ∧
          ∀ c, m'.conversation? id = some c → ps.player.id = c.playerId →
            c.isExpired m'.now m'.timeout = false → ∃ r, response = .ok r := by
  refine ⟨fun t hvalid => ⟨?_, ?_⟩, fun m hm => ⟨?_, ?_⟩⟩
  · intro p id playerId npcId providerId now hnew
    exact Turn.begin_lands ((Tree.validate_iff t.tree).mp hvalid) (hnew ▸ rfl) (hnew ▸ rfl)
  · intro p input hactive hnode
    exact Turn.advance_lands ((Tree.validate_iff t.tree).mp hvalid) hactive hnode input
  · intro ps providerId r hnew hr
    obtain ⟨p, tree, play, opens⟩ := start_ok hm.sound hr
    refine ⟨tree, (Tree.validate_iff tree).mpr (opens.valid hm.sound), fun c hc => ?_,
      fun c hc => ?_⟩
    · rw [opens.eq_of_held hm.sound hnew hc]
      exact opens.treeOf? hm.sound
    · rw [opens.eq_of_held hm.sound hnew hc]
      exact contains_of_plays (opens.plays hm.sound) (opens.installed hm.sound)
  · intro id tree hrests cs hcs hinstalls m'
    have reachable : m'.Reachable := hm.run fun call hcall => (hcs call hcall).2
    have rests : m'.RestsOn id tree := hrests.run hm hcs hinstalls
    have playable := rests.playable hinstalls.run
    refine ⟨rests, fun ps input => ⟨playable.advance_ne reachable.sound ps input, ?_⟩⟩
    intro c hc howner hlive
    obtain ⟨p, hp, -⟩ := reachable.sound.provider hc
    exact (advance_plays reachable.sound hc hp howner hlive input).1 (playable c p hc hp)

/-- The diner may mumble, and the cook take on another guest, and the order is still taken. -/
theorem progress_supper :
    let turn := Inn.cook.turn Inn.kitchen.forum Inn.supper
    let opening := Conversation.new "" "guest" "cook" "cook" Inn.supper Instant.epoch
    let started := (Inn.kitchen.start Inn.diner none).manager
    let calls := [Call.advance Inn.diner "" "Hm.", .editProvider "cook" (.mapNpc "maid" "supper")]
    let later := (started.run calls).1
    turn.Lands (turn.begin (.ofConversation opening Inn.diner 0)) ∧
    (∃ tree : Tree, tree.validate = .ok () ∧ started.Installs "" tree ∧ started.RestsOn "" tree) ∧
    later.RestsOn "" Inn.supper ∧
    (later.advance Inn.diner "" "1").result.response ≠ .error (.nodeNotFound "supper" "table") ∧
    ∃ r, (later.advance Inn.diner "" "1").result.response = .ok r := by
  intro turn opening started calls later
  obtain ⟨hturns, hruns⟩ := progress
  obtain ⟨hbegin, -⟩ := hturns turn (by decide)
  obtain ⟨hstart, -⟩ := hruns Inn.kitchen Inn.kitchen_reachable
  have reachable : started.Reachable :=
    Inn.kitchen_reachable.perform (.start Inn.diner none) rfl
  obtain ⟨-, hstays⟩ := hruns started reachable
  obtain ⟨hrests, hanswers⟩ := hstays "" Inn.supper (by decide +kernel) calls
    (by simp [calls, Call.isLaunch, Call.providers]) (by decide +kernel)
  obtain ⟨hfails, hanswered⟩ := hanswers Inn.diner "1"
  have held : later.conversation? "" = some { opening with
      vars := Dict.ofList [("price", .int 3)]
      history := ["menu"]
      turnCount := 1 } := by decide +kernel
  obtain ⟨r, hr, hid⟩ : ∃ r, (Inn.kitchen.start Inn.diner none).result.response = .ok r ∧
      r.conversationId = "" := exists_ok_of_map (by decide +kernel)
  have begun := hstart Inn.diner none r (by decide +kernel) hr
  rw [hid] at begun
  exact ⟨hbegin _ _ _ _ _ _ rfl, begun, hrests, (hfails "supper" "table").2,
    hanswered _ held rfl (by decide +kernel)⟩

end Manager

end Parley
