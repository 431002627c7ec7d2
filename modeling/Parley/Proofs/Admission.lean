/-
Which trees are let in.

Validation goes through a tree node by node and stops at the first defect.  What it accepts can
be said of the tree as a whole, and every way to install a tree goes by that:

* `Tree.WellFormed` — what a tree must be: named, begun at one of its nodes, and led nowhere
  but to nodes of its own;
* `Tree.validate_iff_wellFormed` — validation accepts these trees and no others;
* `Tree.WellFormed.redirect` — a node may lead to any node, and so round in a circle;
* `Tree.ofText_iff`, `Provider.replaceTree_iff` — reading and installing accept the same trees;
* `Provider.HoldsWellFormed` — whatever is done with a provider, it holds no others;
* `Tree.admission` — all of it, for every tree and every provider.

Design notes: `Tree.Valid` is put in the terms of `Tree.defects`, for use in proofs.  The
conditions here name only nodes and characters, so that they can be read by themselves.
-/
import Parley.Proofs.Fidelity
import Parley.Proofs.Manager.Run

namespace Parley

/-- Some character of the text is not blank. -/
def Text.HasContent (s : String) : Prop := ∃ ch ∈ s.toList, Text.isBlank ch = false

theorem Text.isBlankText_eq_false {s : String} :
    Text.isBlankText s = false ↔ Text.HasContent s := by
  rw [isBlankText, List.all_eq_false, HasContent]
  simp only [Bool.not_eq_true]

/-- A target that a node names, for itself or for one of its choices. -/
inductive Node.Names (n : Node) (target : String) : Prop where
  | own (h : n.nextNodeId = some target)
  | choice {c : Choice} (hc : c ∈ n.choices) (h : c.nextNodeId = some target)

namespace Tree

/-- What a tree must be to be installed.  Nothing is asked of the way its nodes are linked, but
that no link goes astray. -/
structure WellFormed (t : Tree) : Prop where
  id : Text.HasContent t.id
  name : Text.HasContent t.name
  startNodeId : Text.HasContent t.startNodeId
  nonempty : ∃ key n, t.node? key = some n
  start : ∃ n, t.node? t.startNodeId = some n
  ids : ∀ key n, t.node? key = some n → n.id = key
  messages : ∀ key n, t.node? key = some n → Text.HasContent n.message
  targets : ∀ key n target, t.node? key = some n → n.Names target →
    target = "" ∨ ∃ n', t.node? target = some n'

variable {t : Tree} {key target : String} {n : Node}

theorem isTarget_iff : t.isTarget target = true ↔ target = "" ∨ ∃ n, t.node? target = some n := by
  rw [isTarget, Bool.or_eq_true, String.isEmpty_iff, Dict.contains_eq_isSome,
    Option.isSome_iff_exists]
  rfl

/-- The targets of a node are its own and those of its choices. -/
theorem forall_names_iff :
    (∀ target, n.Names target → target = "" ∨ ∃ n', t.node? target = some n') ↔
      t.IsTargetOf n.nextNodeId ∧ ∀ c ∈ n.choices, t.IsTargetOf c.nextNodeId := by
  constructor
  · intro h
    refine ⟨fun target htarget => ?_, fun c hc target htarget => ?_⟩
    · exact isTarget_iff.mpr (h target (.own htarget))
    · exact isTarget_iff.mpr (h target (.choice hc htarget))
  · rintro ⟨hown, hchoices⟩ target hnames
    cases hnames with
    | own htarget => exact isTarget_iff.mp (hown target htarget)
    | choice hc htarget => exact isTarget_iff.mp (hchoices _ hc target htarget)

theorem Valid.wellFormed (h : t.Valid) : t.WellFormed where
  id := Text.isBlankText_eq_false.mp h.id
  name := Text.isBlankText_eq_false.mp h.name
  startNodeId := Text.isBlankText_eq_false.mp h.startNodeId
  nonempty := ⟨t.startNodeId, h.startNode⟩
  start := h.startNode
  ids key n hn := (h.node key n hn).id_eq
  messages key n hn := Text.isBlankText_eq_false.mp (h.node key n hn).message
  targets key n target hn :=
    forall_names_iff.mpr ⟨(h.node key n hn).next, (h.node key n hn).choices⟩ target

theorem WellFormed.valid (h : t.WellFormed) : t.Valid where
  id := Text.isBlankText_eq_false.mpr h.id
  name := Text.isBlankText_eq_false.mpr h.name
  startNodeId := Text.isBlankText_eq_false.mpr h.startNodeId
  nodes := by
    obtain ⟨key, n, hn⟩ := h.nonempty
    rw [Dict.isEmpty, List.isEmpty_eq_false_iff_exists_mem]
    exact ⟨(key, n), Dict.get?_eq_some_iff.mp hn⟩
  start := by
    obtain ⟨n, hn⟩ := h.start
    exact Dict.contains_of_get? hn
  node key n hn := by
    obtain ⟨hnext, hchoices⟩ := forall_names_iff.mp fun target => h.targets key n target hn
    exact ⟨h.ids key n hn, Text.isBlankText_eq_false.mpr (h.messages key n hn), hnext, hchoices⟩

theorem validate_iff_wellFormed (t : Tree) : t.validate = .ok () ↔ t.WellFormed := by
  rw [validate_iff]
  exact ⟨Valid.wellFormed, WellFormed.valid⟩

theorem validate_error_iff (t : Tree) : (∃ e, t.validate = .error e) ↔ ¬ t.WellFormed := by
  rw [← validate_iff_wellFormed]
  cases t.validate with
  | ok => exact iff_of_false (by simp) (fun h => h rfl)
  | error e => exact iff_of_true ⟨e, rfl⟩ (by simp)

/-! ### Circles -/

/-- The tree with the way on from one of its nodes led elsewhere. -/
def redirect (t : Tree) (key target : String) : Tree :=
  { t with nodes := t.nodes.modify key fun n => { n with nextNodeId := some target } }

theorem node?_redirect (t : Tree) (key target other : String) :
    (t.redirect key target).node? other =
      if key = other then (t.node? other).map fun n => { n with nextNodeId := some target }
      else t.node? other :=
  Dict.get?_modify _ _ _ _

/-- The same nodes are there, and where one was changed it names no target but the new one and
those that it named before. -/
theorem node?_redirect_cases {other : String}
    (h : (t.redirect key target).node? other = some n) :
    ∃ before, t.node? other = some before ∧ n.id = before.id ∧ n.message = before.message ∧
      ∀ other, n.Names other → other = target ∨ before.Names other := by
  rw [node?_redirect] at h
  split at h
  · obtain ⟨before, hbefore, rfl⟩ := Option.map_eq_some_iff.mp h
    refine ⟨before, hbefore, rfl, rfl, fun other hnames => ?_⟩
    cases hnames with
    | own hother => exact .inl (Option.some.inj hother).symm
    | choice hc hother => exact .inr (.choice hc hother)
  · exact ⟨n, h, rfl, rfl, fun other hnames => .inr hnames⟩

theorem exists_node?_redirect {other : String} (h : ∃ n, t.node? other = some n) :
    ∃ n, (t.redirect key target).node? other = some n := by
  obtain ⟨n, hn⟩ := h
  rw [node?_redirect, hn]
  split
  · exact ⟨_, rfl⟩
  · exact ⟨n, rfl⟩

/-- Any node may lead to any other and to itself: circles are no defect. -/
theorem WellFormed.redirect (h : t.WellFormed) (key : String)
    (htarget : ∃ n, t.node? target = some n) : (t.redirect key target).WellFormed where
  id := h.id
  name := h.name
  startNodeId := h.startNodeId
  nonempty := ⟨t.startNodeId, exists_node?_redirect h.start⟩
  start := exists_node?_redirect h.start
  ids other n hn := by
    obtain ⟨before, hbefore, hid, -⟩ := node?_redirect_cases hn
    exact hid.trans (h.ids other before hbefore)
  messages other n hn := by
    obtain ⟨before, hbefore, -, hmessage, -⟩ := node?_redirect_cases hn
    rw [hmessage]
    exact h.messages other before hbefore
  targets other n target' hn hnames := by
    obtain ⟨before, hbefore, -, -, honly⟩ := node?_redirect_cases hn
    rcases honly target' hnames with rfl | hnamed
    · exact .inr (exists_node?_redirect htarget)
    · exact (h.targets other before target' hbefore hnamed).imp_right exists_node?_redirect

/-! ### Reading -/

/-- A text is accepted if it is the document of a well-formed tree. -/
theorem ofText_iff {text : String} :
    ofText text = .ok t ↔ (Document.read text).bind decode = some t ∧ t.WellFormed := by
  rw [ofText]
  cases hread : (Document.read text).bind decode with
  | none => simp
  | some read =>
    show read.validate.map (fun _ => read) = .ok t ↔ _
    rw [Option.some.injEq]
    cases hvalid : read.validate with
    | ok =>
      have wellFormed := (validate_iff_wellFormed read).mp hvalid
      rw [Except.map, Except.ok.injEq]
      exact ⟨fun heq => ⟨heq, heq ▸ wellFormed⟩, And.left⟩
    | error e =>
      have refused := (validate_error_iff read).mp ⟨e, hvalid⟩
      refine iff_of_false (by simp [Except.map]) ?_
      rintro ⟨rfl, wellFormed⟩
      exact refused wellFormed

/-- The text that a tree is written as is accepted exactly if the tree is. -/
theorem ofText_compact_iff (h : t.IsSound) (hlegible : t.toJson.IsLegible)
    (hnesting : t.toJson.nesting ≤ Document.depthLimit) :
    ofText t.toJson.compact = .ok t ↔ t.WellFormed := by
  have back : (Document.read t.toJson.compact).bind decode = some t :=
    Codec.tree_lawful.read_compact h hlegible hnesting
  rw [ofText_iff]
  exact and_iff_right back

end Tree

/-! ### Installing -/

namespace Provider

variable {p : Provider} {t : Tree}

theorem replaceTree_wellFormed (h : t.WellFormed) :
    p.replaceTree t = .ok ({ p with trees := p.trees.insert t.id t }, p.trees.get? t.id) := by
  rw [replaceTree, (Tree.validate_iff_wellFormed t).mpr h]
  rfl

theorem replaceTree_refused (h : ¬ t.WellFormed) : ∃ e, p.replaceTree t = .error e := by
  obtain ⟨e, he⟩ := (Tree.validate_error_iff t).mpr h
  rw [replaceTree, he]
  exact ⟨e, rfl⟩

theorem replaceTree_iff : (∃ installed, p.replaceTree t = .ok installed) ↔ t.WellFormed := by
  constructor
  · rintro ⟨installed, hok⟩
    by_contra hnot
    obtain ⟨e, he⟩ := replaceTree_refused (p := p) hnot
    rw [hok] at he
    exact absurd he (by simp)
  · intro h
    exact ⟨_, replaceTree_wellFormed h⟩

/-- A tree that is refused leaves the trees and the mappings as they are. -/
theorem edit_refused (h : ¬ t.WellFormed) : p.edit (.replaceTree t) = p := by
  obtain ⟨e, he⟩ := replaceTree_refused (p := p) h
  rw [edit, he]

/-- Every tree is well-formed and stands under its own id. -/
def HoldsWellFormed (p : Provider) : Prop :=
  ∀ treeId t, p.trees.get? treeId = some t → t.WellFormed ∧ t.id = treeId

theorem Authored.holdsWellFormed (h : p.Authored) : p.HoldsWellFormed := by
  intro treeId t ht
  obtain ⟨hvalid, hid⟩ := h.holdsValid treeId t ht
  exact ⟨hvalid.wellFormed, hid⟩

theorem Authored.edits (h : p.Authored) (es : List Edit) :
    (es.foldl Provider.edit p).Authored := by
  induction es generalizing p with
  | nil => exact h
  | cons e rest ih => exact ih (h.edit e)

end Provider

namespace Manager

/-- Nor does a tree that is refused change anything else. -/
theorem editProvider_refused {m : Manager} (hm : m.Reachable) {t : Tree} (h : ¬ t.WellFormed)
    (providerId : String) : m.editProvider providerId (.replaceTree t) = m := by
  rw [editProvider]
  cases hp : m.providers.get? providerId with
  | none => rfl
  | some p =>
    show m.withProvider (p.edit (.replaceTree t)) = m
    rw [Provider.edit_refused h]
    exact withProvider_self hm.sound hp

end Manager

/-- **Validation is exact, and guards every tree that is installed.**  It accepts the
well-formed trees and no others, however their nodes are linked.  Reading a text and replacing
a tree accept the same; a tree that is refused changes nothing; and whatever a provider was
loaded with and edited to, all it holds is well-formed and under its own id. -/
theorem Tree.admission :
    (∀ t : Tree, (t.validate = .ok () ↔ t.WellFormed) ∧
      (t.WellFormed → ∀ key target, (∃ n, t.node? target = some n) →
        (t.redirect key target).validate = .ok ()) ∧
      (∀ text, Tree.ofText text = .ok t ↔
        (Document.read text).bind Tree.decode = some t ∧ t.WellFormed) ∧
      (t.IsSound → t.toJson.IsLegible → t.toJson.nesting ≤ Document.depthLimit →
        (Tree.ofText t.toJson.compact = .ok t ↔ t.WellFormed)) ∧
      (∀ p : Provider,
        ((∃ installed, p.replaceTree t = .ok installed) ↔ t.WellFormed) ∧
        (t.WellFormed → p.replaceTree t =
          .ok ({ p with trees := p.trees.insert t.id t }, p.trees.get? t.id)) ∧
        (¬ t.WellFormed → p.edit (.replaceTree t) = p)) ∧
      ∀ m : Manager, m.Reachable → ¬ t.WellFormed → ∀ providerId,
        m.perform (.editProvider providerId (.replaceTree t)) = (m, [])) ∧
    (∀ (id name : String) (hook : Option Hook) (sample : Nat → Float) (taken : Nat)
      (es : List Provider.Edit),
      (es.foldl Provider.edit { id, name, hook, sample, taken }).HoldsWellFormed) ∧
    ∀ m : Manager, m.Reachable → ∀ providerId p, m.providers.get? providerId = some p →
      p.HoldsWellFormed := by
  refine ⟨fun t => ⟨t.validate_iff_wellFormed, fun h key target htarget => ?_,
    fun text => ofText_iff, ofText_compact_iff, fun p => ?_, fun m hm h providerId => ?_⟩,
    fun id name hook sample taken es => ?_, fun m hm providerId p hp => ?_⟩
  · exact (validate_iff_wellFormed _).mpr (h.redirect key htarget)
  · exact ⟨Provider.replaceTree_iff, Provider.replaceTree_wellFormed, Provider.edit_refused⟩
  · rw [Manager.perform, Manager.editProvider_refused hm h]
  · exact ((Provider.Authored.new id name hook sample taken).edits es).holdsWellFormed
  · exact (hm.sound.registry providerId p hp).2.authored.holdsWellFormed

namespace Inn

/-- The greeting, but nobody can say where it begins. -/
def mumble : Tree := { greeting with startNodeId := "nowhere" }

theorem greeting_isSound : greeting.IsSound where
  nodes := by
    have values : greeting.nodes.values =
        [{ id := "bye", message := "Sleep well.", isEnd := true },
          { id := "hello", message := "Good evening.", nextNodeId := some "bye" }] := by decide
    rw [values]
    refine List.forall_mem_cons.mpr ⟨?_, List.forall_mem_singleton.mpr ?_⟩ <;>
      constructor <;> exact fun _ hmem => absurd hmem List.not_mem_nil
  vars := nofun
  metadata := trivial

/-- There is no number in it. -/
theorem greeting_isLegible : greeting.toJson.IsLegible := by
  show Json.HaveLegible _
  repeat' constructor

end Inn

/-- The greeting may go round in a circle, but it has to begin somewhere. -/
theorem Tree.admission_greeting :
    Inn.greeting.WellFormed ∧ (Inn.greeting.redirect "bye" "hello").validate = .ok () ∧
    Tree.ofText Inn.greeting.toJson.compact = .ok Inn.greeting ∧
    (∃ installed, Inn.cook.replaceTree Inn.greeting = .ok installed) ∧
    ¬ Inn.mumble.WellFormed ∧ Inn.keeper.edit (.replaceTree Inn.mumble) = Inn.keeper ∧
    Inn.reopened.perform (.editProvider "keeper" (.replaceTree Inn.mumble)) =
      (Inn.reopened, []) ∧
    (Inn.keeper.prepare {} none).HoldsWellFormed := by
  obtain ⟨htrees, -, hmanagers⟩ := admission
  obtain ⟨hexact, hcircle, -, hwritten, hinstall, -⟩ := htrees Inn.greeting
  obtain ⟨hexact', -, -, -, hrefuse, hmanager⟩ := htrees Inn.mumble
  have greeting : Inn.greeting.WellFormed := hexact.mp (by decide)
  have mumble : ¬ Inn.mumble.WellFormed := fun h => absurd (hexact'.mpr h) (by decide)
  have registered : Inn.reopened.providers.get? "keeper" = some (Inn.keeper.prepare {} none) := rfl
  have start : ∃ n, Inn.greeting.node? "hello" = some n :=
    Option.isSome_iff_exists.mp (by decide)
  have written := hwritten Inn.greeting_isSound Inn.greeting_isLegible (by decide +kernel)
  have refused := hmanager Inn.reopened Inn.reopened_reachable mumble "keeper"
  have holds := hmanagers Inn.reopened Inn.reopened_reachable "keeper" _ registered
  exact ⟨greeting, hcircle greeting "bye" "hello" start, written.mpr greeting,
    (hinstall Inn.cook).1.mpr greeting, mumble, (hrefuse Inn.keeper).2.2 mumble, refused, holds⟩

end Parley
