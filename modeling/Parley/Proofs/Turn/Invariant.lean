/-
What every part of a turn keeps, the turn keeps.

A turn is made of seven things that can be done to a play: to be at another node, to draw
the sample of a condition, to set a variable, to run an action, to announce where the turn
has got to, to end the conversation and to write back what actions wrote.  `Turn.Keeps`
says that none of them breaks a property of plays:

* `Turn.Keeps.begin`, `Turn.Keeps.advance` — then a whole turn does not break it.

Design notes: the conditions, actions and values are those of the tree, so that a property
may depend on what the content holds.
-/
import Parley.Proofs.Turn

namespace Parley

/-- The actions that can run when a turn enters or leaves a node. -/
def Node.allActions (n : Node) : List Action := n.actions ++ n.choices.flatMap Choice.actions

/-- The conditions that can be asked at a node. -/
def Node.allConditions (n : Node) : List Condition :=
  n.conditions ++ n.choices.filterMap Choice.condition ++ n.allActions.filterMap Action.condition

def Tree.HasAction (t : Tree) (a : Action) : Prop :=
  ∃ nodeId n, t.node? nodeId = some n ∧ a ∈ n.allActions

def Tree.HasCondition (t : Tree) (c : Condition) : Prop :=
  ∃ nodeId n, t.node? nodeId = some n ∧ c ∈ n.allConditions

/-- The value is one that a node sets. -/
def Tree.HasValue (t : Tree) (value : Json) : Prop :=
  ∃ nodeId n, t.node? nodeId = some n ∧ value ∈ n.vars.values

namespace Tree

variable {t : Tree} {nodeId : String} {n : Node}

theorem hasAction_node (hn : t.node? nodeId = some n) {a : Action} (ha : a ∈ n.actions) :
    t.HasAction a :=
  ⟨nodeId, n, hn, List.mem_append_left _ ha⟩

theorem hasAction_choice (hn : t.node? nodeId = some n) {c : Choice} (hc : c ∈ n.choices)
    {a : Action} (ha : a ∈ c.actions) : t.HasAction a :=
  ⟨nodeId, n, hn, List.mem_append_right _ (List.mem_flatMap.mpr ⟨c, hc, ha⟩)⟩

theorem hasCondition_node (hn : t.node? nodeId = some n) {c : Condition}
    (hc : c ∈ n.conditions) : t.HasCondition c :=
  ⟨nodeId, n, hn, List.mem_append_left _ (List.mem_append_left _ hc)⟩

theorem hasCondition_choice (hn : t.node? nodeId = some n) {c : Choice} (hc : c ∈ n.choices)
    {condition : Condition} (hcondition : c.condition = some condition) :
    t.HasCondition condition :=
  ⟨nodeId, n, hn, List.mem_append_left _ (List.mem_append_right _
    (List.mem_filterMap.mpr ⟨c, hc, hcondition⟩))⟩

theorem HasAction.hasCondition {a : Action} (ha : t.HasAction a) {condition : Condition}
    (hcondition : a.condition = some condition) : t.HasCondition condition := by
  obtain ⟨nodeId, n, hn, hmem⟩ := ha
  exact ⟨nodeId, n, hn, List.mem_append_right _
    (List.mem_filterMap.mpr ⟨a, hmem, hcondition⟩)⟩

theorem forall_hasCondition_iff {P : Condition → Prop} :
    (∀ c, t.HasCondition c → P c) ↔ ∀ n ∈ t.nodes.values, ∀ c ∈ n.allConditions, P c := by
  rw [← Dict.forall_get?_iff]
  constructor
  · intro h nodeId n hn c hc
    exact h c ⟨nodeId, n, hn, hc⟩
  · rintro h c ⟨nodeId, n, hn, hc⟩
    exact h nodeId n hn c hc

end Tree

/-- Nothing that a turn of `t` does to a play breaks `P`. -/
structure Turn.Keeps (t : Turn) (P : Play → Prop) : Prop where
  moveTo : ∀ p nodeId, P p → P (p.moveTo nodeId)
  draw : ∀ p c, t.tree.HasCondition c → P p →
    P { p with taken := (c.evaluate t.rules p.context p.taken).2 }
  setVariable : ∀ (p : Play) name value, t.tree.HasValue value → P p →
    P { p with toScene := p.toScene.setVariable name value }
  execute : ∀ (p : Play) a, t.tree.HasAction a → P p →
    P { p with toScene := (a.execute t.rules p.toScene).2 }
  publish : ∀ p o, o.isEffect = false → P p → P (p.publish o)
  conclude : ∀ p, P p → P (p.conclude t.rules.now)
  sync : ∀ p, P p → P p.sync

namespace Turn.Keeps

variable {t : Turn} {P : Play → Prop} {p : Play} {nodeId : String} {n : Node}

/-! ### Lists of conditions, actions and variables -/

theorem evaluateAll (h : t.Keeps P) {conditions : List Condition}
    (hall : ∀ c ∈ conditions, t.tree.HasCondition c) (hp : P p) :
    P { p with taken := (Parley.evaluateAll t.rules p.context conditions p.taken).2 } := by
  induction conditions generalizing p with
  | nil => exact hp
  | cons c rest ih =>
    have drawn := h.draw p c (hall c List.mem_cons_self) hp
    rw [Parley.evaluateAll]
    simp only
    split
    · exact ih (fun c' hc' => hall c' (List.mem_cons_of_mem c hc')) drawn
    · exact drawn

theorem allows (h : t.Keeps P) {condition : Option Condition}
    (hall : ∀ c, condition = some c → t.tree.HasCondition c) (hp : P p) :
    P { p with taken := (Parley.allows t.rules p.context condition p.taken).2 } := by
  cases condition with
  | none => exact hp
  | some c => exact h.draw p c (hall c rfl) hp

theorem openChoices (h : t.Keeps P) {choices : List Choice}
    (hall : ∀ c ∈ choices, ∀ condition, c.condition = some condition →
      t.tree.HasCondition condition) (hp : P p) :
    P { p with taken := (t.openChoices p.context choices p.taken).2 } := by
  induction choices generalizing p with
  | nil => exact hp
  | cons c rest ih =>
    have drawn := h.allows (hall c List.mem_cons_self) hp
    rw [Turn.openChoices]
    exact ih (fun c' hc' => hall c' (List.mem_cons_of_mem c hc')) drawn

theorem setVariables (h : t.Keeps P) {vars : Dict Json}
    (hall : ∀ value ∈ vars.values, t.tree.HasValue value) (hp : P p) :
    P { p with toScene := p.toScene.setVariables vars } := by
  rw [Dict.values, List.forall_mem_map] at hall
  rw [Scene.setVariables]
  generalize vars.entries = entries at hall
  induction entries generalizing p with
  | nil => exact hp
  | cons entry rest ih =>
    obtain ⟨hvalue, hrest⟩ := List.forall_mem_cons.mp hall
    exact ih (h.setVariable p entry.1 entry.2 hvalue hp) hrest

theorem executeAll (h : t.Keeps P) {actions : List Action}
    (hall : ∀ a ∈ actions, t.tree.HasAction a) (hp : P p) :
    P { p with toScene := (Parley.executeAll t.rules p.toScene actions).2 } := by
  induction actions generalizing p with
  | nil => exact hp
  | cons a rest ih =>
    have ran := h.execute p a (hall a List.mem_cons_self) hp
    exact ih (fun a' ha' => hall a' (List.mem_cons_of_mem a ha')) ran

/-! ### The parts of a turn -/

theorem enter (h : t.Keeps P) (hn : t.tree.node? nodeId = some n) (hp : P p) :
    P (t.enter p nodeId n) := by
  have asked := h.evaluateAll (fun _ hc => Tree.hasCondition_node hn hc) (h.moveTo p nodeId hp)
  rw [Turn.enter]
  simp only
  -- Variables and actions wait for the conditions, but the node is announced either way.
  split
  · have written := h.setVariables (fun _ hvalue => ⟨nodeId, n, hn, hvalue⟩) asked
    have ran := h.executeAll (fun _ ha => Tree.hasAction_node hn ha) written
    exact h.publish _ _ rfl ran
  · exact h.publish _ _ rfl asked

theorem respond (h : t.Keeps P) (hn : t.tree.node? nodeId = some n) (hp : P p) :
    P (t.respond p n).1 := by
  have synced := h.sync p hp
  have asked := h.openChoices (fun _ hc _ hcondition => Tree.hasCondition_choice hn hc hcondition)
    synced
  rw [Turn.respond]
  simp only
  split
  · exact asked
  · exact synced

theorem farewell (h : t.Keeps P) (hp : P p) : P (t.farewell p).1 :=
  h.conclude _ (h.sync p hp)

theorem node_ok (hn : t.node nodeId = .ok n) : t.tree.node? nodeId = some n := by
  rw [Turn.node] at hn
  split at hn
  · rename_i hfound
    obtain rfl := Except.ok.inj hn
    exact hfound
  · exact absurd hn (by simp)

theorem proceed (h : t.Keeps P) (target : Option String) (input : String) (hp : P p) :
    P (t.proceed p target input).1 := by
  rw [Turn.proceed]
  cases target.filter (!·.isEmpty) with
  | none => exact h.farewell hp
  | some nodeId =>
    simp only
    split
    · exact hp
    · rename_i n hnode
      have hn := node_ok hnode
      have entered := h.enter hn hp
      cases n.isEnd with
      | true => exact h.respond hn (h.conclude _ entered)
      | false => exact h.respond hn (h.publish _ _ rfl entered)

theorem take (h : t.Keeps P) (hn : t.tree.node? nodeId = some n) {c : Choice}
    (hc : c ∈ n.choices) (input : String) (hp : P p) : P (t.take p n c input).1 := by
  have ran := h.executeAll (fun _ ha => Tree.hasAction_choice hn hc ha) hp
  exact h.proceed _ input (h.publish _ _ rfl ran)

theorem begin (h : t.Keeps P) (hp : P p) : P (t.begin p).1 := by
  rw [Turn.begin]
  simp only
  split
  · exact hp
  · rename_i n hnode
    have hn := node_ok hnode
    have entered := h.enter hn hp
    cases n.isEnd with
    | true => exact h.respond hn (h.conclude _ entered)
    | false => exact h.respond hn entered

theorem advance (h : t.Keeps P) (input : String) (hp : P p) : P (t.advance p input).1 := by
  cases hn : t.tree.node? p.conversation.currentNodeId with
  | none =>
    rw [Turn.advance, Turn.node, hn]
    exact hp
  | some n =>
    have drawn := h.openChoices
      (fun _ hc _ hcondition => Tree.hasCondition_choice hn hc hcondition) hp
    -- There is no choice to make, one is made, or the input picks none.
    rcases advance_cases hn input with ⟨-, hgo⟩ | ⟨c, hc, hgo⟩ | ⟨-, -, hgo⟩
    · rw [hgo]
      exact h.proceed _ input drawn
    · rw [hgo]
      exact h.take hn (mem_openChoices (selectChoice_mem hc)) input drawn
    · rw [hgo]
      exact h.respond hn drawn

end Turn.Keeps

end Parley
