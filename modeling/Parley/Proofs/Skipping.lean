/-
Actions that do not run leave no trace.

A list of actions is run in order, each on the scene that those before it have left.  An
action whose condition is not met is passed over, and so is one that fails:

* `executeAll_announced` — what ran is announced, in order, each time with the context right
  after it;
* `executeAll_count` — and is counted;
* `Action.Idles` — the action is of no known kind, or its condition is not met;
* `executeAll_padded` — wherever such actions are put into a list, it runs as it did without
  them.

Design notes: a condition that is left to chance draws a sample even if it is not met, and
what comes after it draws the next one.  So the actions put in may not ask for any.
-/
import Parley.Proofs.Chance

namespace Parley

/-- What is announced of an action that ran, in the context right after it. -/
def Context.executed (ctx : Context) (a : Action) : Event :=
  Event.ofContext ctx (.actionExecuted a ctx.toJson)

/-- The action that is said to have run. -/
def Occurrence.action? : Occurrence → Option Action
  | actionExecuted a _ => some a
  | _ => none

def Event.isExecution (e : Event) : Bool := e.occurrence.action?.isSome

/-- The condition of the action is met, and its effect does not fail. -/
def Action.runs (rules : Rules) (s : Scene) (a : Action) : Bool :=
  let (allowed, taken) := allows rules s.context a.condition s.taken
  allowed && (a.effect.apply rules.hook { s with taken }).1

/-- The scene in which the action with this number is reached. -/
def Scene.reached (rules : Rules) (s : Scene) (actions : List Action) (i : Nat) : Scene :=
  (executeAll rules s (actions.take i)).2

/-- The actions that run, with their numbers. -/
def Scene.running (rules : Rules) (s : Scene) (actions : List Action) : List (Action × Nat) :=
  actions.zipIdx.filter fun x => x.1.runs rules (s.reached rules actions x.2)

variable {rules : Rules} {s : Scene} {a : Action} {actions padded : List Action}

/-! ### What is announced -/

/-- Only executions tell of actions. -/
theorem Event.actions_eq (log : List Event) :
    (log.filterMap fun e => e.occurrence.action?) =
      (log.filter isExecution).filterMap fun e => e.occurrence.action? := by
  rw [List.filterMap_filter]
  refine List.filterMap_congr fun e _ => ?_
  rw [isExecution]
  cases e.occurrence.action? <;> rfl

/-- An effect announces no action; at most it announces a variable. -/
theorem Effect.apply_announced (effect : Effect) (hook : Option Hook) (s : Scene) :
    ∃ told, (effect.apply hook s).2.events = s.events ++ told ∧
      told.filter Event.isExecution = [] := by
  cases effect with
  | setVariable name value =>
    show ∃ told, (s.setVariable name value).events = _ ∧ _
    unfold Scene.setVariable
    simp only
    split
    · exact ⟨[], (List.append_nil _).symm, rfl⟩
    · exact ⟨[_], rfl, rfl⟩
  | custom name params =>
    refine ⟨[], ?_, rfl⟩
    rw [List.append_nil]
    cases hook <;> rfl
  | giveItem | takeItem | addFlag | removeFlag | startQuest | completeQuest | unknown =>
    exact ⟨[], (List.append_nil _).symm, rfl⟩

theorem Action.execute_fst (rules : Rules) (s : Scene) (a : Action) :
    (a.execute rules s).1 = a.runs rules s := by
  rw [execute, runs]
  simp only
  split
  · rename_i hallowed
    rw [hallowed, Bool.true_and]
    split
    · rename_i hsucceeded
      exact hsucceeded.symm
    · rename_i hfailed
      exact (Bool.eq_false_iff.mpr hfailed).symm
  · rename_i hbarred
    rw [Bool.eq_false_iff.mpr hbarred, Bool.false_and]

theorem Action.execute_announced (rules : Rules) (s : Scene) (a : Action) :
    ∃ told, (a.execute rules s).2.events = s.events ++ told ∧
      told.filter Event.isExecution =
        if a.runs rules s then [(a.execute rules s).2.context.executed a] else [] := by
  rw [← execute_fst]
  obtain ⟨told, hevents, htold⟩ := a.effect.apply_announced rules.hook
    { s with taken := (allows rules s.context a.condition s.taken).2 }
  rw [execute]
  simp only
  split
  · split
    · let after := (a.effect.apply rules.hook
        { s with taken := (allows rules s.context a.condition s.taken).2 }).2.context
      refine ⟨told ++ [after.executed a], ?_, ?_⟩
      · rw [← List.append_assoc, ← hevents]
        rfl
      · rw [List.filter_append, htold]
        rfl
    · exact ⟨told, hevents, htold⟩
  · exact ⟨[], (List.append_nil _).symm, rfl⟩

theorem executeAll_cons (rules : Rules) (s : Scene) (a : Action) (rest : List Action) :
    executeAll rules s (a :: rest) =
      ((executeAll rules (a.execute rules s).2 rest).1 + (a.execute rules s).1.toNat,
        (executeAll rules (a.execute rules s).2 rest).2) := rfl

theorem Scene.running_cons (rules : Rules) (s : Scene) (a : Action) (rest : List Action) :
    s.running rules (a :: rest) =
      (if a.runs rules s then [(a, 0)] else []) ++
        ((a.execute rules s).2.running rules rest).map fun x => (x.1, x.2 + 1) := by
  -- What comes later is reached from where the first action leads, one number on.
  have later (i : Nat) : s.reached rules (a :: rest) (i + 1) =
      (a.execute rules s).2.reached rules rest i := rfl
  have shifted : rest.zipIdx 1 = rest.zipIdx.map fun x => (x.1, x.2 + 1) := List.zipIdx_succ
  rw [running, List.zipIdx_cons, Nat.zero_add, shifted, List.filter_cons, List.filter_map]
  change (if a.runs rules s = true then _ else _) = _
  split <;> rfl

/-- The actions that ran are announced in order, each with the context right after it. -/
theorem executeAll_announced (rules : Rules) (s : Scene) (actions : List Action) :
    ∃ told, (executeAll rules s actions).2.events = s.events ++ told ∧
      told.filter Event.isExecution = (s.running rules actions).map fun x =>
        (s.reached rules actions (x.2 + 1)).context.executed x.1 := by
  induction actions generalizing s with
  | nil => exact ⟨[], (List.append_nil _).symm, rfl⟩
  | cons a rest ih =>
    obtain ⟨first, hfirst, hran⟩ := a.execute_announced rules s
    obtain ⟨told, hevents, htold⟩ := ih (a.execute rules s).2
    refine ⟨first ++ told, ?_, ?_⟩
    · rw [executeAll_cons, hevents, hfirst, List.append_assoc]
    · rw [List.filter_append, hran, htold, Scene.running_cons, List.map_append, List.map_map]
      congr 1
      split <;> rfl

theorem executeAll_count (rules : Rules) (s : Scene) (actions : List Action) :
    (executeAll rules s actions).1 = (s.running rules actions).length := by
  induction actions generalizing s with
  | nil => rfl
  | cons a rest ih =>
    rw [executeAll_cons, ih, a.execute_fst, Scene.running_cons, List.length_append,
      List.length_map, Nat.add_comm]
    cases a.runs rules s <;> rfl

theorem Scene.running_sublist (rules : Rules) (s : Scene) (actions : List Action) :
    ((s.running rules actions).map Prod.fst).Sublist actions := by
  have chosen := (List.filter_sublist (l := actions.zipIdx)
    (p := fun x => x.1.runs rules (s.reached rules actions x.2))).map Prod.fst
  rwa [List.zipIdx_map_fst] at chosen

/-! ### What can be put in -/

/-- The action is passed over in this scene, and leaves nothing to chance. -/
structure Action.Idles (rules : Rules) (s : Scene) (a : Action) : Prop where
  settled : ∀ c, a.condition = some c → c.check.isRandom = false
  idle : a.effect = .unknown ∨ (allows rules s.context a.condition s.taken).1 = false

theorem Action.Idles.execute_eq (h : a.Idles rules s) : a.execute rules s = (false, s) := by
  have undrawn : (allows rules s.context a.condition s.taken).2 = s.taken := by
    cases hcondition : a.condition with
    | none => rfl
    | some c => exact c.evaluate_taken (h.settled c hcondition) rules s.context s.taken
  rw [execute]
  simp only [undrawn]
  rcases h.idle with hunknown | hbarred
  · rw [hunknown]
    split <;> rfl
  · rw [hbarred]
    rfl

/-- `padded` is `actions` with idle actions put in, each idle in the scene where it stands. -/
inductive Padded (rules : Rules) : Scene → List Action → List Action → Prop where
  | nil (s : Scene) : Padded rules s [] []
  | keep {s : Scene} {actions padded : List Action} (a : Action)
      (h : Padded rules (a.execute rules s).2 actions padded) :
      Padded rules s (a :: actions) (a :: padded)
  | idle {s : Scene} {actions padded : List Action} {a : Action} (ha : a.Idles rules s)
      (h : Padded rules s actions padded) : Padded rules s actions (a :: padded)

namespace Padded

theorem refl (rules : Rules) (s : Scene) (actions : List Action) :
    Padded rules s actions actions := by
  induction actions generalizing s with
  | nil => exact .nil s
  | cons a rest ih => exact .keep a (ih _)

/-- A block of actions that are all idle at one place may be put in there. -/
theorem insert (before after : List Action) {block : List Action}
    (hblock : ∀ a ∈ block, a.Idles rules (executeAll rules s before).2) :
    Padded rules s (before ++ after) (before ++ (block ++ after)) := by
  induction before generalizing s with
  | nil =>
    induction block with
    | nil => exact .refl rules s after
    | cons a rest ih =>
      obtain ⟨ha, hrest⟩ := List.forall_mem_cons.mp hblock
      exact .idle ha (ih hrest)
  | cons a rest ih => exact .keep a (ih hblock)

end Padded

/-- Count, context, announcements, samples and calls of the hook are those of the list without
the idle actions. -/
theorem executeAll_padded (h : Padded rules s actions padded) :
    executeAll rules s padded = executeAll rules s actions := by
  induction h with
  | nil => rfl
  | keep a _ ih => rw [executeAll_cons, executeAll_cons, ih]
  | idle ha _ ih =>
    rw [executeAll_cons, ha.execute_eq]
    exact ih

/-- A list of actions counts and announces those that run, in order and each with the context
right after it; and it runs the same whatever idle actions are put in between. -/
theorem Action.skipping (rules : Rules) (s : Scene) (actions : List Action) :
    (∃ told, (executeAll rules s actions).2.events = s.events ++ told ∧
      (executeAll rules s actions).1 = (told.filter Event.isExecution).length ∧
      told.filter Event.isExecution = (s.running rules actions).map (fun x =>
        (s.reached rules actions (x.2 + 1)).context.executed x.1) ∧
      (told.filterMap fun e => e.occurrence.action?).Sublist actions) ∧
    ∀ padded, Padded rules s actions padded →
      executeAll rules s padded = executeAll rules s actions := by
  obtain ⟨told, hevents, htold⟩ := executeAll_announced rules s actions
  refine ⟨⟨told, hevents, ?_, htold, ?_⟩, fun _ => executeAll_padded⟩
  · rw [htold, List.length_map, executeAll_count]
  · have ran : (told.filterMap fun e => e.occurrence.action?) =
        (s.running rules actions).map Prod.fst := by
      rw [Event.actions_eq, htold, List.filterMap_map]
      exact congrFun List.filterMap_eq_map _
    rw [ran]
    exact s.running_sublist rules actions

/-- Who has been fed by now is not said to be hungry, and a joke is not understood; the stew is
served all the same. -/
theorem Action.skipping_stew :
    let fed : Action := { effect := .addFlag "fed" }
    let stew : Action := { effect := .giveItem "stew" 1 }
    let grumble : Action :=
      { effect := .addFlag "hungry"
        condition := some { check := .observe (.flag "fed") .notHas .null } }
    let rules : Rules := { now := Instant.epoch, sample := fun _ => 0.5 }
    let s : Scene := { context := {} }
    executeAll rules s [fed, grumble, { effect := .unknown }, stew] =
      executeAll rules s [fed, stew] ∧
    (executeAll rules s [grumble]).1 = 1 ∧ (executeAll rules s [fed, stew]).1 = 2 := by
  intro fed stew grumble rules s
  have idle : ∀ a ∈ [grumble, { effect := .unknown }],
      a.Idles rules (executeAll rules s [fed]).2 := by
    intro a ha
    rcases List.mem_cons.mp ha with rfl | ha
    · exact ⟨fun c hc => Option.some.inj hc ▸ rfl, .inr (by decide +kernel)⟩
    · obtain rfl := List.mem_singleton.mp ha
      exact ⟨nofun, .inl rfl⟩
  have padded : Padded rules s [fed, stew] [fed, grumble, { effect := .unknown }, stew] :=
    Padded.insert [fed] [stew] idle
  exact ⟨(Action.skipping rules s [fed, stew]).2 _ padded, by decide +kernel, by decide +kernel⟩

end Parley
