/-
Running actions.

A `Scene` is what actions work on: the context, the samples taken, the events
announced so far and the calls of the custom hook.  An action whose condition is
not met, or which fails, announces nothing.

* `Scene.setVariable` — announces a variable whose value changes;
* `Action.execute` — one action, and whether it ran;
* `executeAll` — a list of actions, and how many ran.

Design notes: items and quests belong to other systems, so those actions only
announce themselves.
-/
import Parley.Evaluation
import Parley.Event

namespace Parley

structure Scene where
  context : Context
  /-- Random samples taken so far. -/
  taken : Nat := 0
  events : List Event := []
  /-- Calls of the custom hook, with name and parameters. -/
  calls : List (String × Json) := []

namespace Scene

/-- Announce something on behalf of the running turn. -/
def publish (s : Scene) (o : Occurrence) : Scene :=
  { s with events := s.events ++ [Event.ofContext s.context o] }

def withScope (s : Scene) (scope : Scope) : Scene :=
  { s with context := { s.context with conversation := scope } }

def withPlayer (s : Scene) (player : Player) : Scene :=
  { s with context := { s.context with player } }

def setVariable (s : Scene) (name : String) (value : Json) : Scene :=
  let scope := s.context.conversation
  let previous := scope.vars.get? name
  let s := s.withScope { scope with vars := scope.vars.insert name value }
  if previous.any (·.same value) then s else s.publish (.variableChanged name previous value)

/-- Set several variables, in the order of their names. -/
def setVariables (s : Scene) (vars : Dict Json) : Scene :=
  vars.entries.foldl (fun s (name, value) => s.setVariable name value) s

/-- Run a custom action; the flag says whether it succeeded. -/
def callHook (s : Scene) (name : String) (params : Json) : Option Hook → Bool × Scene
  | none => (true, s)
  | some hook =>
    let (context, succeeded) := hook name params s.context
    (succeeded, { s with context, calls := s.calls ++ [(name, params)] })

end Scene

/-- Apply an effect; the flag says whether it succeeded. -/
def Effect.apply (hook : Option Hook) (s : Scene) : Effect → Bool × Scene
  | setVariable name value => (true, s.setVariable name value)
  | addFlag flag => (true, s.withPlayer (s.context.player.addFlag flag))
  | removeFlag flag => (true, s.withPlayer (s.context.player.removeFlag flag))
  | giveItem .. | takeItem .. | startQuest _ | completeQuest _ => (true, s)
  | custom name params => s.callHook name params hook
  | unknown => (false, s)

def Action.execute (rules : Rules) (s : Scene) (a : Action) : Bool × Scene :=
  let (allowed, taken) := allows rules s.context a.condition s.taken
  let s := { s with taken }
  if allowed then
    let (succeeded, s) := a.effect.apply rules.hook s
    if succeeded then (true, s.publish (.actionExecuted a s.context.toJson)) else (false, s)
  else (false, s)

/-- Run actions in order, carrying on past those that do not run. -/
def executeAll (rules : Rules) (s : Scene) : List Action → Nat × Scene
  | [] => (0, s)
  | a :: rest =>
    let (ran, s) := a.execute rules s
    let (count, s) := executeAll rules s rest
    (count + ran.toNat, s)

end Parley
