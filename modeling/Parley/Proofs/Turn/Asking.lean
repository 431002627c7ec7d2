/-
Turns whose conditions are answered by someone else.

A turn asks conditions in many places: of nodes on arrival, of actions before they run, of
choices before they are shown or picked.  `Turn.advanceBy` is a turn that leaves the answers to
`ask`, wherever they are asked for:

* `Turn.advanceBy_eq` — where `ask` answers the conditions of the tree as they are evaluated, in
  every context that the turn can come to, it is the turn itself.

Design notes: what contexts the turn can come to is put as a value that `f` keeps from the first
to the last, as `Steady` has it.
-/
import Parley.Proofs.Turn.Invariant

namespace Parley

/-- Whether a condition holds in a context, and the samples taken when it has been asked. -/
abbrev Answers := Context → Condition → Nat → Bool × Nat

namespace Answers

/-- Whether all conditions hold; none is asked after one that does not. -/
def all (ask : Answers) (ctx : Context) : List Condition → Nat → Bool × Nat
  | [], taken => (true, taken)
  | c :: rest, taken =>
    let (holds, taken) := ask ctx c taken
    if holds then all ask ctx rest taken else (false, taken)

def allows (ask : Answers) (ctx : Context) (condition : Option Condition) (taken : Nat) :
    Bool × Nat :=
  match condition with
  | none => (true, taken)
  | some c => ask ctx c taken

def execute (ask : Answers) (hook : Option Hook) (s : Scene) (a : Action) : Bool × Scene :=
  let (allowed, taken) := ask.allows s.context a.condition s.taken
  let s := { s with taken }
  if allowed then
    let (succeeded, s) := a.effect.apply hook s
    if succeeded then (true, s.publish (.actionExecuted a s.context.toJson)) else (false, s)
  else (false, s)

def executeAll (ask : Answers) (hook : Option Hook) (s : Scene) : List Action → Nat × Scene
  | [] => (0, s)
  | a :: rest =>
    let (ran, s) := ask.execute hook s a
    let (count, s) := executeAll ask hook s rest
    (count + ran.toNat, s)

def openChoices (ask : Answers) (ctx : Context) : List Choice → Nat → List Choice × Nat
  | [], taken => ([], taken)
  | c :: rest, taken =>
    let (isOpen, taken) := ask.allows ctx c.condition taken
    let (others, taken) := openChoices ask ctx rest taken
    (if isOpen then c :: others else others, taken)

end Answers

namespace Turn

def enterBy (t : Turn) (ask : Answers) (p : Play) (nodeId : String) (n : Node) : Play :=
  let p := p.moveTo nodeId
  let (met, taken) := ask.all p.context n.conditions p.taken
  let p := { p with taken }
  let p :=
    if met then
      { p with
        toScene := (ask.executeAll t.rules.hook (p.toScene.setVariables n.vars) n.actions).2 }
    else p
  p.publish (.nodeReached nodeId)

def respondBy (ask : Answers) (p : Play) (n : Node) : Play × Response :=
  let p := p.sync
  let message := Placeholder.resolve p.context n.message
  let (choices, taken) :=
    if p.conversation.isActive then
      let (choices, taken) := ask.openChoices p.context n.choices p.taken
      (if choices.isEmpty then none else some (views p.context 1 choices), taken)
    else (none, p.taken)
  ({ p with taken },
    { conversationId := p.conversation.id
      message
      choices
      isComplete := !p.conversation.isActive
      state := p.conversation
      vars := p.conversation.vars })

def proceedBy (t : Turn) (ask : Answers) (p : Play) (target : Option String) (input : String) :
    Play × Except DialogueError Response :=
  match target.filter (!·.isEmpty) with
  | none =>
    let (p, response) := t.farewell p
    (p, .ok response)
  | some target =>
    match t.node target with
    | .error e => (p, .error e)
    | .ok n =>
      let p := t.enterBy ask p target n
      let p :=
        if n.isEnd then p.conclude t.rules.now
        else p.publish (.conversationContinued target input)
      let (p, response) := respondBy ask p n
      (p, .ok response)

def takeBy (t : Turn) (ask : Answers) (p : Play) (n : Node) (c : Choice) (input : String) :
    Play × Except DialogueError Response :=
  let p := { p with toScene := (ask.executeAll t.rules.hook p.toScene c.actions).2 }
  let p := p.publish (.choiceMade n.id c.id)
  t.proceedBy ask p (c.nextNodeId <|> n.nextNodeId) input

def askAgainBy (t : Turn) (ask : Answers) (p : Play) (n : Node) : Play × Response :=
  let (p, response) := respondBy ask p n
  (p, { response with message := response.message ++ t.settings.notUnderstoodSuffix })

/-- One line of input, with the answers of `ask`. -/
def advanceBy (t : Turn) (ask : Answers) (p : Play) (input : String) :
    Play × Except DialogueError Response :=
  match t.node p.conversation.currentNodeId with
  | .error e => (p, .error e)
  | .ok n =>
    let (choices, taken) := ask.openChoices p.context n.choices p.taken
    let p := { p with taken }
    if choices.isEmpty then t.proceedBy ask p n.nextNodeId input
    else
      match selectChoice t.settings.numericSelection input choices with
      | some c => t.takeBy ask p n c input
      | none =>
        let (p, response) := t.askAgainBy ask p n
        (p, .ok response)

end Turn

/-! ### Lists of conditions, choices and actions -/

section Lists

variable {t : Turn} {ask : Answers} {ctx : Context}

/-- In this context the conditions of the tree are answered as they are evaluated. -/
def Turn.AnsweredBy (t : Turn) (ask : Answers) (ctx : Context) : Prop :=
  ∀ c, t.tree.HasCondition c → ∀ taken, ask ctx c taken = c.evaluate t.rules ctx taken

namespace Answers

theorem all_eq (h : t.AnsweredBy ask ctx) {conditions : List Condition}
    (hall : ∀ c ∈ conditions, t.tree.HasCondition c) (taken : Nat) :
    ask.all ctx conditions taken = evaluateAll t.rules ctx conditions taken := by
  induction conditions generalizing taken with
  | nil => rfl
  | cons c rest ih =>
    obtain ⟨hc, hrest⟩ := List.forall_mem_cons.mp hall
    rw [all, evaluateAll, h c hc taken]
    simp only [ih hrest]

theorem allows_eq (h : t.AnsweredBy ask ctx) {condition : Option Condition}
    (hall : ∀ c, condition = some c → t.tree.HasCondition c) (taken : Nat) :
    ask.allows ctx condition taken = Parley.allows t.rules ctx condition taken := by
  cases condition with
  | none => rfl
  | some c => exact h c (hall c rfl) taken

theorem openChoices_eq (h : t.AnsweredBy ask ctx) {choices : List Choice}
    (hall : ∀ c ∈ choices, ∀ condition, c.condition = some condition →
      t.tree.HasCondition condition) (taken : Nat) :
    ask.openChoices ctx choices taken = t.openChoices ctx choices taken := by
  induction choices generalizing taken with
  | nil => rfl
  | cons c rest ih =>
    obtain ⟨hc, hrest⟩ := List.forall_mem_cons.mp hall
    rw [openChoices, Turn.openChoices, allows_eq h hc]
    simp only [ih hrest]

theorem execute_eq {s : Scene} (h : t.AnsweredBy ask s.context) {a : Action}
    (ha : t.tree.HasAction a) : ask.execute t.rules.hook s a = a.execute t.rules s := by
  rw [execute, Action.execute, allows_eq h fun _ => ha.hasCondition]

variable {α : Type} {f : Context → α} {v : α}

/-- An action leaves a context in which the answers are still those of evaluation. -/
theorem executeAll_eq (hask : ∀ ctx, f ctx = v → t.AnsweredBy ask ctx)
    (hf : Steady f t.rules.hook) {s : Scene} (hs : f s.context = v) {actions : List Action}
    (hall : ∀ a ∈ actions, t.tree.HasAction a) :
    ask.executeAll t.rules.hook s actions = Parley.executeAll t.rules s actions := by
  induction actions generalizing s with
  | nil => rfl
  | cons a rest ih =>
    obtain ⟨ha, hrest⟩ := List.forall_mem_cons.mp hall
    have after : f (a.execute t.rules s).2.context = v := (a.execute_tells hf s).context.trans hs
    rw [executeAll, Parley.executeAll, execute_eq (hask _ hs) ha]
    simp only [ih after hrest]

end Answers

end Lists

/-! ### The parts of a turn -/

namespace Turn

variable {α : Type} {f : Context → α} {v : α} {t : Turn} {ask : Answers} {p : Play}
  {nodeId : String} {n : Node}

theorem respondBy_eq (h : t.AnsweredBy ask p.context) (hn : t.tree.node? nodeId = some n) :
    respondBy ask p n = t.respond p n := by
  have synced : t.AnsweredBy ask p.sync.context := h
  rw [respondBy, respond,
    Answers.openChoices_eq synced fun _ hc _ => Tree.hasCondition_choice hn hc]

theorem askAgainBy_eq (h : t.AnsweredBy ask p.context) (hn : t.tree.node? nodeId = some n) :
    t.askAgainBy ask p n = t.askAgain p n := by
  rw [askAgainBy, askAgain, respondBy_eq h hn]

section Steady

variable (hask : ∀ ctx, f ctx = v → t.AnsweredBy ask ctx) (hf : Steady f t.rules.hook)
  (hp : f p.context = v)

include hask hf hp

theorem enterBy_eq (hn : t.tree.node? nodeId = some n) :
    t.enterBy ask p nodeId n = t.enter p nodeId n := by
  have moved : f (p.moveTo nodeId).context = v := (hf.currentNodeId _ _).trans hp
  rw [enterBy, enter, Answers.all_eq (hask _ moved) fun _ => Tree.hasCondition_node hn]
  simp only
  -- The variables are set before the actions are asked for.
  have written (taken : Nat) :
      f (Scene.setVariables { (p.moveTo nodeId).toScene with taken } n.vars).context = v :=
    (Scene.setVariables_tells hf { (p.moveTo nodeId).toScene with taken }
      n.vars).context.trans moved
  rw [Answers.executeAll_eq hask hf (written _) fun _ => Tree.hasAction_node hn]

theorem proceedBy_eq (target : Option String) (input : String) :
    t.proceedBy ask p target input = t.proceed p target input := by
  rw [proceedBy, proceed]
  cases target.filter (!·.isEmpty) with
  | none => rfl
  | some nodeId =>
    cases hnode : t.node nodeId with
    | error e => simp only [hnode]
    | ok n =>
      have hn := Keeps.node_ok hnode
      have entered : f (t.enter p nodeId n).context = v :=
        (enter_goes hf p nodeId n).tells.context.trans hp
      simp only [hnode, enterBy_eq hask hf hp hn]
      -- Neither way to finish the arrival changes the context.
      split
      · have concluded : f ((t.enter p nodeId n).conclude t.rules.now).context = v := entered
        rw [respondBy_eq (hask _ concluded) hn]
      · have published : f ((t.enter p nodeId n).publish
            (.conversationContinued nodeId input)).context = v := entered
        rw [respondBy_eq (hask _ published) hn]

theorem takeBy_eq (hn : t.tree.node? nodeId = some n) {c : Choice} (hc : c ∈ n.choices)
    (input : String) : t.takeBy ask p n c input = t.take p n c input := by
  have ran : f (executeAll t.rules p.toScene c.actions).2.context = v :=
    (executeAll_tells hf p.toScene c.actions).context.trans hp
  rw [takeBy, take, Answers.executeAll_eq hask hf hp fun _ => Tree.hasAction_choice hn hc]
  exact proceedBy_eq hask hf ran _ input

/-- Where the answers are those of evaluation from beginning to end, the turn is the same. -/
theorem advanceBy_eq (input : String) : t.advanceBy ask p input = t.advance p input := by
  rw [advanceBy, advance]
  cases hnode : t.node p.conversation.currentNodeId with
  | error e => rfl
  | ok n =>
    have hn := Keeps.node_ok hnode
    have asked := Answers.openChoices_eq (hask _ hp) (fun _ hc _ => Tree.hasCondition_choice hn hc)
      p.taken
    have listed : ∀ c ∈ (t.openChoices p.context n.choices p.taken).1, c ∈ n.choices :=
      fun _ => mem_openChoices
    simp only [asked]
    generalize t.openChoices p.context n.choices p.taken = opened at listed
    have drawn : f { p with taken := opened.2 }.context = v := hp
    split
    · exact proceedBy_eq hask hf drawn n.nextNodeId input
    · cases hselect : selectChoice t.settings.numericSelection input opened.1 with
      | some c => exact takeBy_eq hask hf drawn hn (listed c (selectChoice_mem hselect)) input
      | none => simp only [askAgainBy_eq (hask _ drawn) hn]

end Steady

end Turn

end Parley
