/-
What a valid tree promises to a turn.

`Tree.Valid` says in conditions what `Tree.defects` looks for:

* `Tree.validate_iff` — a tree is accepted exactly when it is valid;
* `Tree.Valid.startNode`, `Tree.Valid.leads_node`, `Tree.Valid.leads_choice` — the
  start node is there, and so is every node that a turn can be sent to.
-/
import Parley.Proofs.Dict
import Parley.Tree.Validation

namespace Parley

theorem defectWhen_eq_nil {condition : Bool} {defect : ContentError} :
    defectWhen condition defect = [] ↔ condition = false := by
  rw [defectWhen]
  cases condition <;> simp

namespace Tree

/-- A present target is empty or names a node. -/
def IsTargetOf (t : Tree) (target : Option String) : Prop :=
  ∀ nodeId, target = some nodeId → t.isTarget nodeId = true

structure ValidNode (t : Tree) (key : String) (n : Node) : Prop where
  id_eq : n.id = key
  message : Text.isBlankText n.message = false
  next : t.IsTargetOf n.nextNodeId
  choices : ∀ c ∈ n.choices, t.IsTargetOf c.nextNodeId

structure Valid (t : Tree) : Prop where
  id : Text.isBlankText t.id = false
  name : Text.isBlankText t.name = false
  startNodeId : Text.isBlankText t.startNodeId = false
  nodes : t.nodes.isEmpty = false
  start : t.nodes.contains t.startNodeId = true
  node : ∀ key n, t.node? key = some n → t.ValidNode key n

/-- A target that is neither missing nor empty names a node. -/
def Leads (t : Tree) (target : Option String) : Prop :=
  ∀ nodeId, target.filter (!·.isEmpty) = some nodeId → ∃ n, t.node? nodeId = some n

theorem targetDefects_eq_nil {t : Tree} {source : String} {target : Option String} :
    t.targetDefects source target = [] ↔ t.IsTargetOf target := by
  rw [IsTargetOf]
  cases target with
  | none => simp [targetDefects]
  | some nodeId => simp [targetDefects, defectWhen_eq_nil]

theorem nodeDefects_eq_nil {t : Tree} {key : String} {n : Node} :
    t.nodeDefects key n = [] ↔ t.ValidNode key n := by
  rw [nodeDefects]
  simp only [List.append_eq_nil_iff, List.flatMap_eq_nil_iff, defectWhen_eq_nil,
    targetDefects_eq_nil, bne_eq_false_iff_eq]
  constructor
  · rintro ⟨⟨⟨hid, hmessage⟩, hnext⟩, hchoices⟩
    exact ⟨hid, hmessage, hnext, hchoices⟩
  · rintro ⟨hid, hmessage, hnext, hchoices⟩
    exact ⟨⟨⟨hid, hmessage⟩, hnext⟩, hchoices⟩

theorem defects_eq_nil {t : Tree} : t.defects = [] ↔ t.Valid := by
  rw [defects]
  simp only [List.append_eq_nil_iff, List.flatMap_eq_nil_iff, defectWhen_eq_nil,
    nodeDefects_eq_nil, Bool.not_eq_eq_eq_not, Bool.not_false]
  constructor
  · rintro ⟨⟨⟨⟨⟨hid, hname⟩, hstart⟩, hnodes⟩, hcontains⟩, hall⟩
    exact ⟨hid, hname, hstart, hnodes, hcontains,
      fun key n hn => hall (key, n) (Dict.get?_eq_some_iff.mp hn)⟩
  · rintro ⟨hid, hname, hstart, hnodes, hcontains, hall⟩
    exact ⟨⟨⟨⟨⟨hid, hname⟩, hstart⟩, hnodes⟩, hcontains⟩,
      fun e he => hall e.1 e.2 (Dict.get?_eq_some_iff.mpr he)⟩

/-- Validation accepts exactly the valid trees. -/
theorem validate_iff (t : Tree) : t.validate = .ok () ↔ t.Valid := by
  rw [validate_eq_ok_iff, defects_eq_nil]

theorem IsTargetOf.leads {t : Tree} {target : Option String} (h : t.IsTargetOf target) :
    t.Leads target := by
  intro nodeId htarget
  rw [Option.filter_eq_some_iff] at htarget
  obtain ⟨hsome, hnonempty⟩ := htarget
  have htarget := h nodeId hsome
  rw [isTarget] at htarget
  rw [Bool.not_eq_true'] at hnonempty
  rw [hnonempty, Bool.false_or, Dict.contains_eq_isSome] at htarget
  exact Option.isSome_iff_exists.mp htarget

namespace Valid

variable {t : Tree} {key : String} {n : Node}

theorem startNode (ht : t.Valid) : ∃ n, t.node? t.startNodeId = some n :=
  Option.isSome_iff_exists.mp ht.start

theorem leads_node (ht : t.Valid) (hn : t.node? key = some n) : t.Leads n.nextNodeId :=
  (ht.node key n hn).next.leads

/-- A choice without a target of its own goes where its node goes. -/
theorem leads_choice (ht : t.Valid) (hn : t.node? key = some n) {c : Choice}
    (hc : c ∈ n.choices) : t.Leads (c.nextNodeId <|> n.nextNodeId) := by
  cases hnext : c.nextNodeId with
  | none => exact ht.leads_node hn
  | some nodeId =>
    have := ((ht.node key n hn).choices c hc).leads
    rwa [hnext] at this

end Valid

end Tree

end Parley
