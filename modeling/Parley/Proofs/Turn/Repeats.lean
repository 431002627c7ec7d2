/-
The same turn at another time.

Two plays of a turn may differ in nothing but the time of the last activity, and with it in the
times of what they announce.  If neither the answers to conditions nor the custom actions look
at that time, the turn goes the same way in both:

* `Context.dated`, `Event.bare` — a context at another time; an event without its time;
* `Play.Repeats`, `Response.Repeats` — the same play and the same response, but for times and for
  the texts shown, which may quote them;
* `Turn.advanceBy_repeats` — a line of input keeps it so.
-/
import Parley.Proofs.Turn.Asking

namespace Parley

/-- The context, with the last activity at another time. -/
def Context.dated (ctx : Context) (now : Instant) : Context :=
  { ctx with conversation := { ctx.conversation with lastActivity := now } }

def Conversation.dated (c : Conversation) (now : Instant) : Conversation :=
  { c with lastActivity := now }

/-- A custom action neither looks at the time of the last activity nor changes it. -/
def Hook.IgnoresActivity (run : Hook) : Prop :=
  ∀ name params (ctx : Context) now,
    run name params (ctx.dated now) =
      ((run name params ctx).1.dated now, (run name params ctx).2)

/-- What has happened, without the context that is told along. -/
def Occurrence.bare : Occurrence → Occurrence
  | actionExecuted a _ => actionExecuted a .null
  | o => o

def Event.bare (e : Event) : Event :=
  { e with timestamp := Instant.epoch, occurrence := e.occurrence.bare }

theorem Event.bare_ofContext {ctx : Context} {now : Instant} {o o' : Occurrence}
    (h : o'.bare = o.bare) :
    (Event.ofContext (ctx.dated now) o').bare = (Event.ofContext ctx o).bare := by
  rw [bare, bare]
  exact congrArg (fun occurrence => ({ Event.ofContext ctx o with
    timestamp := Instant.epoch, occurrence } : Event)) h

/-- Answers that do not look at the time of the last activity. -/
def Answers.Repeats (ask ask' : Answers) : Prop :=
  ∀ (ctx : Context) now c taken, ask' (ctx.dated now) c taken = ask ctx c taken

/-! ### Scenes -/

/-- The scene is the same at another time. -/
structure Scene.Repeats (now : Instant) (s s' : Scene) : Prop where
  context : s'.context = s.context.dated now
  taken : s'.taken = s.taken
  events : s'.events.map Event.bare = s.events.map Event.bare
  calls : s'.calls = s.calls

section Actions

variable {now : Instant} {s s' : Scene} {ask ask' : Answers} {hook : Option Hook}

theorem Answers.Repeats.all (h : ask.Repeats ask') (ctx : Context) (conditions : List Condition)
    (taken : Nat) : ask'.all (ctx.dated now) conditions taken = ask.all ctx conditions taken := by
  induction conditions generalizing taken with
  | nil => rfl
  | cons c rest ih =>
    rw [Answers.all, Answers.all, h]
    simp only [ih]

theorem Answers.Repeats.allows (h : ask.Repeats ask') (ctx : Context)
    (condition : Option Condition) (taken : Nat) :
    ask'.allows (ctx.dated now) condition taken = ask.allows ctx condition taken := by
  cases condition with
  | none => rfl
  | some c => exact h ctx now c taken

theorem Answers.Repeats.openChoices (h : ask.Repeats ask') (ctx : Context)
    (choices : List Choice) (taken : Nat) :
    ask'.openChoices (ctx.dated now) choices taken = ask.openChoices ctx choices taken := by
  induction choices generalizing taken with
  | nil => rfl
  | cons c rest ih =>
    rw [Answers.openChoices, Answers.openChoices, h.allows]
    simp only [ih]

namespace Scene.Repeats

theorem publish (h : s.Repeats now s') {o o' : Occurrence} (ho : o'.bare = o.bare) :
    (s.publish o).Repeats now (s'.publish o') := by
  refine ⟨h.context, h.taken, ?_, h.calls⟩
  show (s'.events ++ [Event.ofContext s'.context o']).map Event.bare =
    (s.events ++ [Event.ofContext s.context o]).map Event.bare
  rw [List.map_append, List.map_append, h.events, h.context]
  exact congrArg (fun e => s.events.map Event.bare ++ [e]) (Event.bare_ofContext ho)

theorem setVariable (h : s.Repeats now s') (name : String) (value : Json) :
    (s.setVariable name value).Repeats now (s'.setVariable name value) := by
  have previous : s'.context.conversation.vars = s.context.conversation.vars := by
    rw [h.context]
    rfl
  have written : (s.withScope { s.context.conversation with
      vars := s.context.conversation.vars.insert name value }).Repeats now
      (s'.withScope { s'.context.conversation with
        vars := s'.context.conversation.vars.insert name value }) := by
    refine ⟨?_, h.taken, h.events, h.calls⟩
    show ({ s'.context with conversation := _ } : Context) = _
    rw [h.context]
    rfl
  unfold Scene.setVariable
  simp only
  rw [previous] at written ⊢
  split
  · exact written
  · exact written.publish rfl

theorem setVariables (h : s.Repeats now s') (vars : Dict Json) :
    (s.setVariables vars).Repeats now (s'.setVariables vars) := by
  rw [Scene.setVariables, Scene.setVariables]
  induction vars.entries generalizing s s' with
  | nil => exact h
  | cons entry rest ih => exact ih (h.setVariable entry.1 entry.2)

theorem withPlayer (h : s.Repeats now s') (change : Player → Player) :
    (s.withPlayer (change s.context.player)).Repeats now
      (s'.withPlayer (change s'.context.player)) := by
  refine ⟨?_, h.taken, h.events, h.calls⟩
  show ({ s'.context with player := _ } : Context) = _
  rw [h.context]
  rfl

theorem apply (h : s.Repeats now s') (hhook : ∀ run, hook = some run → run.IgnoresActivity)
    (effect : Effect) :
    (effect.apply hook s').1 = (effect.apply hook s).1 ∧
      (effect.apply hook s).2.Repeats now (effect.apply hook s').2 := by
  cases effect with
  | setVariable name value => exact ⟨rfl, h.setVariable name value⟩
  | addFlag flag => exact ⟨rfl, h.withPlayer fun player => player.addFlag flag⟩
  | removeFlag flag => exact ⟨rfl, h.withPlayer fun player => player.removeFlag flag⟩
  | giveItem | takeItem | startQuest | completeQuest | unknown => exact ⟨rfl, h⟩
  | custom name params =>
    cases hook with
    | none => exact ⟨rfl, h⟩
    | some run =>
      have same : run name params s'.context =
          ((run name params s.context).1.dated now, (run name params s.context).2) := by
        rw [h.context]
        exact hhook run rfl name params s.context now
      refine ⟨?_, ?_, h.taken, h.events, ?_⟩
      · show (run name params s'.context).2 = (run name params s.context).2
        rw [same]
      · show (run name params s'.context).1 = (run name params s.context).1.dated now
        rw [same]
      · show s'.calls ++ [(name, params)] = s.calls ++ [(name, params)]
        rw [h.calls]

theorem execute (h : s.Repeats now s') (hask : ask.Repeats ask')
    (hhook : ∀ run, hook = some run → run.IgnoresActivity) (a : Action) :
    (ask'.execute hook s' a).1 = (ask.execute hook s a).1 ∧
      (ask.execute hook s a).2.Repeats now (ask'.execute hook s' a).2 := by
  have asked : ask'.allows s'.context a.condition s'.taken =
      ask.allows s.context a.condition s.taken := by
    rw [h.context, h.taken, hask.allows]
  rw [Answers.execute, Answers.execute, asked]
  simp only
  generalize ask.allows s.context a.condition s.taken = answer
  have drawn : Scene.Repeats now { s with taken := answer.2 } { s' with taken := answer.2 } :=
    ⟨h.context, rfl, h.events, h.calls⟩
  obtain ⟨hsucceeded, happlied⟩ := drawn.apply hhook a.effect
  cases answer.1 with
  | false => exact ⟨rfl, drawn⟩
  | true =>
    rw [hsucceeded]
    simp only [if_true]
    split
    · exact ⟨rfl, happlied.publish rfl⟩
    · exact ⟨rfl, happlied⟩

theorem executeAll (h : s.Repeats now s') (hask : ask.Repeats ask')
    (hhook : ∀ run, hook = some run → run.IgnoresActivity) (actions : List Action) :
    (ask.executeAll hook s actions).2.Repeats now (ask'.executeAll hook s' actions).2 := by
  induction actions generalizing s s' with
  | nil => exact h
  | cons a rest ih => exact ih (h.execute hask hhook a).2

end Scene.Repeats

end Actions

/-! ### Turns -/

/-- The play is the same at another time. -/
structure Play.Repeats (now : Instant) (p p' : Play) : Prop
    extends Scene.Repeats now p.toScene p'.toScene where
  conversation : p'.conversation = p.conversation.dated now

/-- The response is the same, but for the texts shown. -/
structure Response.Repeats (now : Instant) (r r' : Response) : Prop where
  conversationId : r'.conversationId = r.conversationId
  choices : r'.choices.map (List.map fun v => (v.id, v.index)) =
    r.choices.map (List.map fun v => (v.id, v.index))
  isComplete : r'.isComplete = r.isComplete
  state : r'.state = r.state.dated now
  vars : r'.vars = r.vars

/-- Both turns come to an answer, or both fail alike. -/
inductive Turn.Repeats (now : Instant) : Play × Except DialogueError Response →
    Play × Except DialogueError Response → Prop where
  | answered {p p' : Play} {r r' : Response} (hp : p.Repeats now p') (hr : r.Repeats now r') :
      Turn.Repeats now (p, .ok r) (p', .ok r')
  | failed {p p' : Play} {e : DialogueError} (hp : p.Repeats now p') :
      Turn.Repeats now (p, .error e) (p', .error e)

section Turns

variable {now : Instant} {t t' : Turn} {p p' : Play} {ask ask' : Answers}

namespace Play.Repeats

theorem ofScene (h : p.Repeats now p') {s s' : Scene} (hs : s.Repeats now s') :
    Play.Repeats now { p with toScene := s } { p' with toScene := s' } :=
  ⟨hs, h.conversation⟩

theorem draw (h : p.Repeats now p') (taken : Nat) :
    Play.Repeats now { p with taken } { p' with taken } :=
  ⟨⟨h.context, rfl, h.events, h.calls⟩, h.conversation⟩

theorem moveTo (h : p.Repeats now p') (nodeId : String) :
    (p.moveTo nodeId).Repeats now (p'.moveTo nodeId) := by
  refine ⟨⟨?_, h.taken, h.events, h.calls⟩, ?_⟩
  · show ({ p'.context with conversation := _ } : Context) = _
    rw [h.context]
    rfl
  · show ({ p'.conversation with currentNodeId := _, history := _ } : Conversation) = _
    rw [h.conversation]
    rfl

theorem publish (h : p.Repeats now p') (o : Occurrence) :
    (p.publish o).Repeats now (p'.publish o) :=
  h.ofScene (h.toRepeats.publish rfl)

theorem sync (h : p.Repeats now p') : p.sync.Repeats now p'.sync := by
  refine ⟨h.toRepeats, ?_⟩
  show p'.context.syncInto p'.conversation = _
  rw [h.context, h.conversation]
  rfl

theorem conclude (h : p.Repeats now p') (time time' : Instant) :
    (p.conclude time).Repeats now (p'.conclude time') := by
  have same : p'.conversation.isActive = p.conversation.isActive := by
    rw [h.conversation]
    rfl
  cases hactive : p.conversation.isActive with
  | false => rwa [conclude_ended hactive, conclude_ended (same.trans hactive)]
  | true =>
    rw [conclude_active hactive, conclude_active (same.trans hactive)]
    refine ⟨⟨h.context, h.taken, ?_, h.calls⟩, ?_⟩
    · show (p'.events ++ _).map Event.bare = (p.events ++ _).map Event.bare
      rw [List.map_append, List.map_append, h.events, h.conversation]
      rfl
    · show p'.conversation.ended .completed = _
      rw [h.conversation]
      rfl

end Play.Repeats

namespace Turn

/-- The same choices are shown, in the same order. -/
theorem map_views (ctx ctx' : Context) (index : Nat) (choices : List Choice) :
    (views ctx' index choices).map (fun v => (v.id, v.index)) =
      (views ctx index choices).map fun v => (v.id, v.index) := by
  induction choices generalizing index with
  | nil => rfl
  | cons c rest ih => exact congrArg ((c.id, index) :: ·) (ih (index + 1))

theorem respondBy_repeats (h : p.Repeats now p') (hask : ask.Repeats ask') (n : Node) :
    Turn.Repeats now ((respondBy ask p n).1, .ok (respondBy ask p n).2)
      ((respondBy ask' p' n).1, .ok (respondBy ask' p' n).2) := by
  have synced := h.sync
  have opened : ask'.openChoices p'.sync.context n.choices p.sync.taken =
      ask.openChoices p.sync.context n.choices p.sync.taken := by
    rw [synced.context, hask.openChoices]
  have same : p'.sync.conversation.isActive = p.sync.conversation.isActive := by
    rw [synced.conversation]
    rfl
  rw [respondBy, respondBy]
  simp only [synced.taken, opened, same]
  generalize ask.openChoices p.sync.context n.choices p.sync.taken = choices
  have shown : (if choices.1.isEmpty then none else some (views p'.sync.context 1 choices.1)).map
      (List.map fun v => (v.id, v.index)) =
      (if choices.1.isEmpty then none else some (views p.sync.context 1 choices.1)).map
        (List.map fun v => (v.id, v.index)) := by
    split
    · rfl
    · exact congrArg some (map_views _ _ 1 choices.1)
  have id : p'.sync.conversation.id = p.sync.conversation.id := by
    rw [synced.conversation]
    rfl
  have vars : p'.sync.conversation.vars = p.sync.conversation.vars := by
    rw [synced.conversation]
    rfl
  cases p.sync.conversation.isActive with
  | false => exact .answered (synced.draw _) ⟨id, rfl, rfl, synced.conversation, vars⟩
  | true => exact .answered (synced.draw _) ⟨id, shown, rfl, synced.conversation, vars⟩

theorem askAgainBy_repeats (h : p.Repeats now p') (hask : ask.Repeats ask') (n : Node) :
    Turn.Repeats now ((t.askAgainBy ask p n).1, .ok (t.askAgainBy ask p n).2)
      ((t'.askAgainBy ask' p' n).1, .ok (t'.askAgainBy ask' p' n).2) := by
  cases respondBy_repeats h hask n with
  | answered hp hr =>
    exact .answered hp ⟨hr.conversationId, hr.choices, hr.isComplete, hr.state, hr.vars⟩

/-- The farewell is said at the end of both. -/
theorem farewell_repeats (h : p.Repeats now p') :
    Turn.Repeats now ((t.farewell p).1, .ok (t.farewell p).2)
      ((t'.farewell p').1, .ok (t'.farewell p').2) := by
  have ended := h.sync.conclude t.rules.now t'.rules.now
  refine .answered ended ⟨?_, rfl, rfl, ended.conversation, ?_⟩
  · show (p'.sync.conclude _).conversation.id = (p.sync.conclude _).conversation.id
    rw [ended.conversation]
    rfl
  · show (p'.sync.conclude _).conversation.vars = (p.sync.conclude _).conversation.vars
    rw [ended.conversation]
    rfl

/-- What a turn goes by, but for its time. -/
structure SameBut (t t' : Turn) : Prop where
  tree : t'.tree = t.tree
  hook : t'.rules.hook = t.rules.hook
  settings : t'.settings = t.settings

variable (hsame : t.SameBut t') (hhook : ∀ run, t.rules.hook = some run → run.IgnoresActivity)

include hsame hhook

theorem enterBy_repeats (h : p.Repeats now p') (hask : ask.Repeats ask') (nodeId : String)
    (n : Node) : (t.enterBy ask p nodeId n).Repeats now (t'.enterBy ask' p' nodeId n) := by
  have moved := h.moveTo nodeId
  have met : ask'.all (p'.moveTo nodeId).context n.conditions (p'.moveTo nodeId).taken =
      ask.all (p.moveTo nodeId).context n.conditions (p.moveTo nodeId).taken := by
    rw [moved.context, moved.taken, hask.all]
  rw [enterBy, enterBy, met, hsame.hook]
  simp only
  generalize ask.all (p.moveTo nodeId).context n.conditions (p.moveTo nodeId).taken = answer
  have drawn := moved.draw answer.2
  split
  · have ran := (drawn.toRepeats.setVariables n.vars).executeAll hask hhook n.actions
    exact (drawn.ofScene ran).publish _
  · exact drawn.publish _

theorem proceedBy_repeats (h : p.Repeats now p') (hask : ask.Repeats ask')
    (target : Option String) (input : String) :
    Turn.Repeats now (t.proceedBy ask p target input) (t'.proceedBy ask' p' target input) := by
  rw [proceedBy, proceedBy]
  cases target.filter (!·.isEmpty) with
  | none => exact farewell_repeats h
  | some nodeId =>
    have found : t'.node nodeId = t.node nodeId := by
      rw [node, node, hsame.tree]
    simp only [found]
    cases t.node nodeId with
    | error e => exact .failed h
    | ok n =>
      have entered := enterBy_repeats hsame hhook h hask nodeId n
      simp only
      split
      · exact respondBy_repeats (entered.conclude _ _) hask n
      · exact respondBy_repeats (entered.publish _) hask n

theorem takeBy_repeats (h : p.Repeats now p') (hask : ask.Repeats ask') (n : Node) (c : Choice)
    (input : String) :
    Turn.Repeats now (t.takeBy ask p n c input) (t'.takeBy ask' p' n c input) := by
  have ran := h.toRepeats.executeAll hask hhook c.actions
  rw [takeBy, takeBy, hsame.hook]
  exact proceedBy_repeats hsame hhook ((h.ofScene ran).publish _) hask _ input

/-- One line of input goes the same way at both times. -/
theorem advanceBy_repeats (h : p.Repeats now p') (hask : ask.Repeats ask') (input : String) :
    Turn.Repeats now (t.advanceBy ask p input) (t'.advanceBy ask' p' input) := by
  have found : t'.node p'.conversation.currentNodeId = t.node p.conversation.currentNodeId := by
    rw [node, node, hsame.tree, h.conversation]
    rfl
  rw [advanceBy, advanceBy, found]
  cases t.node p.conversation.currentNodeId with
  | error e => exact .failed h
  | ok n =>
    have opened : ask'.openChoices p'.context n.choices p'.taken =
        ask.openChoices p.context n.choices p.taken := by
      rw [h.context, h.taken, hask.openChoices]
    simp only [opened, hsame.settings]
    generalize ask.openChoices p.context n.choices p.taken = choices
    have drawn := h.draw choices.2
    split
    · exact proceedBy_repeats hsame hhook drawn hask n.nextNodeId input
    · cases selectChoice t.settings.numericSelection input choices.1 with
      | some c => exact takeBy_repeats hsame hhook drawn hask n c input
      | none => exact askAgainBy_repeats drawn hask n

end Turn

end Turns

end Parley
