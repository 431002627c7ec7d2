/-
What a provider can hold, and what its calls leave behind.

A provider starts without content and gets it by edits, which install only valid
trees: `Provider.Authored` is what callers can make in this way, and
`Provider.Authored.holdsValid` says that every tree in it is valid and stands under
its own id.  So the calls cannot fail half way:

* `Provider.start_cases` — a start is refused before anything happens, or it is a
  whole turn;
* `Provider.turn_played` — a line of input for a node that is there is a whole turn;
* `Provider.start_opened`, `Provider.runTurn_turned` — what a turn that succeeds leaves.
-/
import Parley.Provider
import Parley.Proofs.Turn

namespace Parley

/-- The arena after a turn: the conversation is kept if it goes on. -/
def Arena.settle (a : Arena) (c : Conversation) : Arena :=
  if c.isActive then a.update c.id c else a.remove c.id

theorem Arena.get?_settle {a : Arena} {c : Conversation} (h : a.contains c.id = true)
    (id : String) :
    (a.settle c).get? id =
      if c.id = id then (if c.isActive = true then some c else none) else a.get? id := by
  rw [contains_eq_isSome] at h
  obtain ⟨before, hbefore⟩ := Option.isSome_iff_exists.mp h
  rw [settle]
  split
  · by_cases hid : c.id = id
    · rw [if_pos hid, ← hid, get?_update_self hbefore]
    · rw [if_neg hid, get?_update, if_neg hid]
  · rw [get?_remove]

theorem Arena.get?_settle_cases {a : Arena} {c c' : Conversation}
    (h : a.contains c.id = true) {id : String} (hc' : (a.settle c).get? id = some c') :
    c' = c ∨ a.get? id = some c' := by
  rw [get?_settle h] at hc'
  split at hc'
  · split at hc'
    · exact .inl (Option.some.inj hc').symm
    · exact absurd hc' (by simp)
  · exact .inr hc'

theorem Arena.contains_settle {a : Arena} {c : Conversation} (h : a.contains c.id = true)
    (id : String) :
    (a.settle c).contains id = if c.id = id then c.isActive else a.contains id := by
  rw [contains_eq_isSome, get?_settle h, contains_eq_isSome]
  by_cases hid : c.id = id
  · rw [if_pos hid, if_pos hid]
    cases c.isActive <;> rfl
  · rw [if_neg hid, if_neg hid]

theorem Arena.Sound.settle {a : Arena} {id : String} {c c' : Conversation} (ha : a.Sound)
    (h : a.get? id = some c) (hid : c'.id = c.id) (hplayer : c'.playerId = c.playerId) :
    (a.settle c').Sound := by
  rw [Arena.settle]
  split
  · rename_i hactive
    rw [hid, ha.id_eq h]
    exact ha.update h hid hplayer hactive
  · exact ha.remove _

namespace Provider

/-! ### Content -/

/-- A change of what a provider holds. -/
inductive Edit where
  | replaceTree (t : Tree)
  | mapNpc (npcId treeId : String)
  | unmapNpc (npcId : String)
  | prepare (config : Config) (content : Option Directory)

/-- A tree that is refused changes nothing. -/
def edit (p : Provider) : Edit → Provider
  | .replaceTree t => match p.replaceTree t with
    | .ok (p, _) => p
    | .error _ => p
  | .mapNpc npcId treeId => p.mapNpc npcId treeId
  | .unmapNpc npcId => (p.unmapNpc npcId).1
  | .prepare config content => p.prepare config content

/-- The providers that callers can make: empty at first, then edited.  Turns draw
samples from them. -/
inductive Authored : Provider → Prop where
  | new (id name : String) (hook : Option Hook) (sample : Nat → Float) (taken : Nat) :
      Authored { id, name, hook, sample, taken }
  | edit {p : Provider} (e : Edit) : p.Authored → Authored (p.edit e)
  | draw {p : Provider} (taken : Nat) : p.Authored → Authored { p with taken }

/-- Every tree is valid and stands under its own id. -/
def HoldsValid (p : Provider) : Prop :=
  ∀ treeId t, p.trees.get? treeId = some t → t.Valid ∧ t.id = treeId

/-- The custom actions of the provider leave the ids of the context alone. -/
def KeepsIds (p : Provider) : Prop := ∀ run, p.hook = some run → run.KeepsIds

/-- The same provider with other content, which is valid if it was before. -/
structure Revises (p p' : Provider) : Prop where
  id : p'.id = p.id
  hook : p'.hook = p.hook
  holdsValid : p.HoldsValid → p'.HoldsValid

namespace Revises

theorem refl (p : Provider) : p.Revises p := ⟨rfl, rfl, fun h => h⟩

theorem trans {p p' p'' : Provider} (h : p.Revises p') (h' : p'.Revises p'') : p.Revises p'' :=
  ⟨h'.id.trans h.id, h'.hook.trans h.hook, fun hp => h'.holdsValid (h.holdsValid hp)⟩

theorem foldl {β : Type} {step : Provider → β → Provider} (h : ∀ p b, Revises p (step p b))
    (bs : List β) (p : Provider) : p.Revises (bs.foldl step p) := by
  induction bs generalizing p with
  | nil => exact .refl p
  | cons b rest ih => exact (h p b).trans (ih _)

end Revises

theorem replaceTree_revises {p p' : Provider} {t : Tree} {old : Option Tree}
    (h : p.replaceTree t = .ok (p', old)) : p.Revises p' := by
  rw [replaceTree] at h
  cases hvalid : t.validate with
  | error e =>
    rw [hvalid] at h
    exact absurd h (by simp [Except.map])
  | ok _ =>
    rw [hvalid] at h
    simp only [Except.map, Except.ok.injEq, Prod.mk.injEq] at h
    obtain ⟨rfl, -⟩ := h
    refine ⟨rfl, rfl, fun hp treeId t' ht' => ?_⟩
    rcases Dict.get?_insert_cases ht' with ⟨hid, rfl⟩ | hold
    · exact ⟨(Tree.validate_iff t').mp hvalid, hid⟩
    · exact hp treeId t' hold

theorem mapNpc_revises (p : Provider) (npcId treeId : String) :
    p.Revises (p.mapNpc npcId treeId) := ⟨rfl, rfl, fun h => h⟩

theorem adopt_revises (p : Provider) (t : Tree) : p.Revises (p.adopt t) := by
  have mapped : p.Revises (t.declaredNpcs.foldl (fun p npcId => p.mapNpc npcId t.id) p) :=
    .foldl (fun p npcId => p.mapNpc_revises npcId t.id) _ p
  rw [adopt.eq_def]
  simp only
  split
  · rename_i h
    exact mapped.trans (replaceTree_revises h)
  · exact mapped

theorem prepare_revises (p : Provider) (config : Config) (content : Option Directory) :
    p.Revises (p.prepare config content) := by
  have mapped (p : Provider) (entry : String × String) :
      p.Revises (p.mapNpc entry.1 entry.2) := p.mapNpc_revises entry.1 entry.2
  rw [prepare.eq_def]
  exact (Revises.foldl adopt_revises _ p).trans (.foldl mapped _ _)

theorem edit_revises (p : Provider) (e : Edit) : p.Revises (p.edit e) := by
  cases e with
  | replaceTree t =>
    rw [edit.eq_def]
    simp only
    split
    · rename_i h
      exact replaceTree_revises h
    · exact .refl p
  | mapNpc npcId treeId => exact p.mapNpc_revises npcId treeId
  | unmapNpc npcId => exact ⟨rfl, rfl, fun h => h⟩
  | prepare config content => exact p.prepare_revises config content

/-- Only valid trees are ever held. -/
theorem Authored.holdsValid {p : Provider} (h : p.Authored) : p.HoldsValid := by
  -- Only an edit can add a tree, and it validates what it adds.
  induction h with
  | new =>
    intro treeId t ht
    exact absurd ht (by rw [show (∅ : Dict Tree) = Dict.empty from rfl, Dict.get?_empty]; simp)
  | edit e _ ih => exact (edit_revises _ e).holdsValid ih
  | draw taken _ ih => exact ih

theorem treeOf_mem {p : Provider} {npcId : String} {t : Tree} (h : p.treeOf npcId = .ok t) :
    ∃ treeId, p.trees.get? treeId = some t := by
  rw [treeOf] at h
  split at h
  · exact absurd h (by simp)
  · split at h
    · exact absurd h (by simp)
    · rename_i ht
      exact ⟨_, by rw [ht]; exact congrArg some (Except.ok.inj h)⟩

variable {α : Type} {f : Context → α}

/-- A provider that callers can make, and whose custom actions leave `f` of the
context alone. -/
structure Fit (f : Context → α) (p : Provider) : Prop where
  authored : p.Authored
  steady : Steady f p.hook

theorem Fit.edit {p : Provider} (h : p.Fit f) (e : Edit) : (p.edit e).Fit f :=
  ⟨h.authored.edit e, (p.edit_revises e).hook ▸ h.steady⟩

theorem Fit.draw {p : Provider} (h : p.Fit f) (taken : Nat) :
    Fit f { p with taken } :=
  ⟨h.authored.draw taken, h.steady⟩

/-! ### Calls -/

/-- A conversation as it begins. -/
def newConversation (p : Provider) (forum : Forum) (ps : Participants) (tree : Tree) :
    Conversation :=
  Conversation.new forum.ids.next ps.player.id ps.npc.id p.id tree forum.now

/-- The announcement of a start. -/
def startEvent (p : Provider) (forum : Forum) (ps : Participants) (tree : Tree) : Event :=
  Event.ofConversation (p.newConversation forum ps tree) forum.now
    (.conversationStarted p.id tree.id tree.startNodeId)

/-- What a start leaves whose turn was played to the end. -/
def opened (p : Provider) (forum : Forum) (ps : Participants) (tree : Tree) (play : Play)
    (r : Response) : Outcome Response :=
  { provider := { p with taken := play.taken }
    forum := { forum with
      ids := forum.ids.advance
      arena := if play.conversation.isActive then forum.arena.insert play.conversation
        else forum.arena }
    participants := play.context.releasePlayer ps
    events := p.startEvent forum ps tree :: play.events
    calls := play.calls
    result := .ok r }

/-- What a turn at `tree` runs under. -/
def turn (p : Provider) (forum : Forum) (tree : Tree) : Turn :=
  { tree, rules := p.rules forum.now, settings := forum.settings }

/-- A start whose first turn succeeds. -/
theorem start_opened {p : Provider} {forum : Forum} {ps : Participants} {tree : Tree}
    {play : Play} {r : Response} (htree : p.treeOf ps.npc.id = .ok tree)
    (hbegin : (p.turn forum tree).begin
      (Play.ofConversation (p.newConversation forum ps tree) ps p.taken) = (play, .ok r)) :
    p.start forum ps = p.opened forum ps tree play r := by
  rw [start]
  rw [htree]
  simp only
  rw [show Turn.begin { tree, rules := p.rules forum.now, settings := forum.settings }
    (Play.ofConversation (Conversation.new forum.ids.next ps.player.id ps.npc.id p.id tree
      forum.now) ps p.taken) = (play, .ok r) from hbegin]
  rw [opened]
  cases play.conversation.isActive <;> rfl

/-- A start is refused for want of a tree, or it is a whole turn. -/
theorem start_cases {p : Provider} (hp : p.Fit f) (forum : Forum) (ps : Participants) :
    (∃ e, p.treeOf ps.npc.id = .error e ∧ p.start forum ps = p.refuse forum ps e) ∨
    ∃ tree play r, p.treeOf ps.npc.id = .ok tree ∧
      (p.turn forum tree).begin
        (Play.ofConversation (p.newConversation forum ps tree) ps p.taken) = (play, .ok r) ∧
      (Play.ofConversation (p.newConversation forum ps tree) ps p.taken).Played f forum.now
        play r := by
  cases htree : p.treeOf ps.npc.id with
  | error e =>
    refine .inl ⟨e, rfl, ?_⟩
    rw [start]
    rw [htree]
  | ok tree =>
    obtain ⟨treeId, hmem⟩ := treeOf_mem htree
    obtain ⟨play, r, hbegin, hplayed⟩ :=
      Turn.begin_played (t := p.turn forum tree)
        (p := Play.ofConversation (p.newConversation forum ps tree) ps p.taken)
        hp.steady (hp.authored.holdsValid treeId tree hmem).1 rfl rfl
    exact .inr ⟨tree, play, r, rfl, hbegin, hplayed⟩

/-- What a line of input leaves whose turn was played to the end. -/
def turned (p : Provider) (forum : Forum) (ps : Participants) (play : Play) (r : Response) :
    Outcome Response :=
  { provider := { p with taken := play.taken }
    forum := { forum with arena := forum.arena.settle play.conversation }
    participants := play.context.releasePlayer ps
    events := play.events
    calls := play.calls
    result := .ok r }

/-- A line of input whose turn succeeds. -/
theorem runTurn_turned {p : Provider} {forum : Forum} {ps : Participants} {tree : Tree}
    {c : Conversation} {input : String} {play : Play} {r : Response}
    (hadvance : (p.turn forum tree).advance
      (Play.ofConversation (c.touch forum.now) ps p.taken) input = (play, .ok r))
    (hid : play.conversation.id = c.id) :
    p.runTurn forum ps tree c input = p.turned forum ps play r := by
  rw [runTurn]
  simp only
  rw [show Turn.advance { tree, rules := p.rules forum.now, settings := forum.settings }
    (Play.ofConversation (c.touch forum.now) ps p.taken) input = (play, .ok r) from hadvance]
  rw [turned, Arena.settle]
  rw [hid]
  cases play.conversation.isActive with
  | true => rfl
  | false =>
    -- An ended conversation is written back first and then taken out.
    simp only [Bool.false_eq_true, if_false]
    rw [Arena.remove_update]

/-- A line of input at a node that is there is a whole turn. -/
theorem turn_played {p : Provider} (hp : p.Fit f) (forum : Forum) (ps : Participants)
    {tree : Tree} (htree : tree.Valid) {c : Conversation} (hactive : c.isActive = true)
    {n : Node} (hn : tree.node? c.currentNodeId = some n) (input : String) :
    ∃ play r,
      (p.turn forum tree).advance (Play.ofConversation (c.touch forum.now) ps p.taken) input =
        (play, .ok r) ∧
      (Play.ofConversation (c.touch forum.now) ps p.taken).Played f forum.now play r :=
  Turn.advance_played (t := p.turn forum tree)
    (p := Play.ofConversation (c.touch forum.now) ps p.taken) hp.steady htree hn hactive input

/-- A conversation that the manager lets through passes the provider's own checks. -/
theorem advance_admitted {p : Provider} (forum : Forum) {ps : Participants} {id : String}
    {c : Conversation} (hc : forum.arena.get? id = some c) (hactive : c.isActive = true)
    (hprovider : p.id = c.providerId) (howner : c.playerId = ps.player.id)
    (hlive : c.isExpired forum.now forum.settings.timeout = false) (input : String) :
    p.advance forum ps id input =
      match p.trees.get? c.treeId with
      | none => p.refuse forum ps (.treeNotFound c.treeId)
      | some tree =>
        if (tree.node? c.currentNodeId).isNone then
          p.refuse forum ps (.nodeNotFound tree.id c.currentNodeId)
        else p.runTurn forum ps tree c input := by
  rw [advance, hc]
  refine (if_neg (by simp [hactive, hprovider])).trans ?_
  refine (if_neg (by simp [howner])).trans ?_
  exact if_neg (by simp [hlive])

end Provider

end Parley
