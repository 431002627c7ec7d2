/-
What running actions leaves alone, and what it announces.

Actions write variables and flags and may run a custom hook.  `Steady f hook` says
that none of this changes `f` of the context, and `Scene.Tells f q` that a scene went
on without changing it, adding only announcements of the kind `q` made from such
contexts:

* `executeAll_tells`, `Scene.setVariables_tells` — actions and variables announce
  effects and nothing else;
* `steady_ids` — a hook that keeps the ids of the context keeps every event
  addressed to the same conversation.

Design notes: `f` is a parameter because claims differ in what they need of the
context; the ids for one, the ids and times for another.
-/
import Parley.Execution

namespace Parley

variable {α : Type}

/-- Who is talking, and in which conversation. -/
structure Context.Ids where
  conversation : String
  player : String
  npc : String

def Context.ids (ctx : Context) : Context.Ids :=
  { conversation := ctx.conversation.id, player := ctx.player.id, npc := ctx.npc.id }

/-- A custom action leaves the ids of the context alone. -/
def Hook.KeepsIds (run : Hook) : Prop :=
  ∀ name params ctx, (run name params ctx).1.ids = ctx.ids

/-- Neither the engine nor the hook changes `f` of the context during a turn. -/
structure Steady (f : Context → α) (hook : Option Hook) : Prop where
  vars : ∀ (ctx : Context) vars,
    f { ctx with conversation := { ctx.conversation with vars } } = f ctx
  currentNodeId : ∀ (ctx : Context) currentNodeId,
    f { ctx with conversation := { ctx.conversation with currentNodeId } } = f ctx
  flags : ∀ (ctx : Context) flags, f { ctx with player := { ctx.player with flags } } = f ctx
  hook : ∀ run, hook = some run → ∀ name params ctx, f (run name params ctx).1 = f ctx

theorem steady_ids {hook : Option Hook} (h : ∀ run, hook = some run → run.KeepsIds) :
    Steady Context.ids hook :=
  ⟨fun _ _ => rfl, fun _ _ => rfl, fun _ _ => rfl, h⟩

/-- Of a context that nothing is read from, nothing changes. -/
theorem steady_unit (hook : Option Hook) : Steady (fun _ => ()) hook :=
  ⟨fun _ _ => rfl, fun _ _ => rfl, fun _ _ => rfl, fun _ _ _ _ _ => rfl⟩

/-- What actions announce: that they ran, and the variables they changed. -/
def Occurrence.isEffect : Occurrence → Bool
  | actionExecuted .. | variableChanged .. => true
  | _ => false

namespace Scene

/-- From `s` to `s'`, `f` of the context stayed and announcements of the kind `q`
were added, each made from a context with the same `f`. -/
structure Tells (f : Context → α) (q : Occurrence → Bool) (s s' : Scene) : Prop where
  context : f s'.context = f s.context
  events : ∃ told, s'.events = s.events ++ told ∧
    ∀ e ∈ told, ∃ ctx o, f ctx = f s.context ∧ q o = true ∧ e = Event.ofContext ctx o

namespace Tells

variable {f : Context → α} {q q' : Occurrence → Bool} {s s' s'' : Scene}

/-- Nothing was announced. -/
theorem silent (hcontext : f s'.context = f s.context) (hevents : s'.events = s.events) :
    Tells f q s s' :=
  ⟨hcontext, [], by simpa using hevents, fun _ he => absurd he List.not_mem_nil⟩

theorem refl (f : Context → α) (q : Occurrence → Bool) (s : Scene) : Tells f q s s :=
  silent rfl rfl

theorem trans (h : Tells f q s s') (h' : Tells f q s' s'') : Tells f q s s'' := by
  obtain ⟨hcontext, told, hevents, htold⟩ := h
  obtain ⟨hcontext', told', hevents', htold'⟩ := h'
  refine ⟨hcontext'.trans hcontext, told ++ told', ?_, ?_⟩
  · rw [hevents', hevents, List.append_assoc]
  · intro e he
    rcases List.mem_append.mp he with he | he
    · exact htold e he
    · obtain ⟨ctx, o, hf, ho, rfl⟩ := htold' e he
      exact ⟨ctx, o, hf.trans hcontext, ho, rfl⟩

theorem mono (hq : ∀ o, q o = true → q' o = true) (h : Tells f q s s') : Tells f q' s s' := by
  obtain ⟨hcontext, told, hevents, htold⟩ := h
  refine ⟨hcontext, told, hevents, fun e he => ?_⟩
  obtain ⟨ctx, o, hf, ho, heq⟩ := htold e he
  exact ⟨ctx, o, hf, hq o ho, heq⟩

end Tells

variable {f : Context → α} {q : Occurrence → Bool}

theorem publish_tells (s : Scene) {o : Occurrence} (ho : q o = true) : Tells f q s (s.publish o) := by
  refine ⟨rfl, [Event.ofContext s.context o], rfl, fun e he => ?_⟩
  obtain rfl := List.mem_singleton.mp he
  exact ⟨s.context, o, rfl, ho, rfl⟩

end Scene

section Actions

variable {f : Context → α} {hook : Option Hook}

theorem Scene.setVariable_tells (hf : Steady f hook) (s : Scene) (name : String)
    (value : Json) : Tells f Occurrence.isEffect s (s.setVariable name value) := by
  have written : Tells f Occurrence.isEffect s
      (s.withScope { s.context.conversation with
        vars := s.context.conversation.vars.insert name value }) :=
    .silent (hf.vars _ _) rfl
  unfold setVariable
  simp only
  split
  · exact written
  · exact written.trans (publish_tells _ rfl)

theorem Scene.setVariables_tells (hf : Steady f hook) (s : Scene) (vars : Dict Json) :
    Tells f Occurrence.isEffect s (s.setVariables vars) := by
  rw [setVariables]
  induction vars.entries generalizing s with
  | nil => exact .refl _ _ _
  | cons head rest ih => exact (setVariable_tells hf s head.1 head.2).trans (ih _)

theorem Effect.apply_tells (effect : Effect) (hf : Steady f hook) (s : Scene) :
    s.Tells f Occurrence.isEffect (effect.apply hook s).2 := by
  cases effect with
  | setVariable name value => exact Scene.setVariable_tells hf s name value
  | addFlag flag =>
    refine .silent ?_ rfl
    show f { s.context with player := s.context.player.addFlag flag } = f s.context
    rw [Player.addFlag]
    split
    · rfl
    · exact hf.flags _ _
  | removeFlag flag => exact .silent (hf.flags _ _) rfl
  | custom name params =>
    cases hook with
    | none => exact .refl _ _ _
    | some run => exact .silent (hf.hook run rfl name params s.context) rfl
  | giveItem | takeItem | startQuest | completeQuest | unknown => exact .refl _ _ _

theorem Action.execute_tells {rules : Rules} (a : Action) (hf : Steady f rules.hook)
    (s : Scene) : s.Tells f Occurrence.isEffect (a.execute rules s).2 := by
  rw [Action.execute]
  simp only
  have drawn : s.Tells f Occurrence.isEffect
      { s with taken := (allows rules s.context a.condition s.taken).2 } := .silent rfl rfl
  have applied := drawn.trans (a.effect.apply_tells hf _)
  split
  · split
    · exact applied.trans (Scene.publish_tells _ rfl)
    · exact applied
  · exact drawn

/-- A list of actions announces effects only. -/
theorem executeAll_tells {rules : Rules} (hf : Steady f rules.hook) (s : Scene)
    (actions : List Action) :
    s.Tells f Occurrence.isEffect (executeAll rules s actions).2 := by
  induction actions generalizing s with
  | nil => exact .refl _ _ _
  | cons a rest ih => exact (a.execute_tells hf s).trans (ih _)

end Actions

end Parley
