/-
The maintenance task.

While it runs, the task waits for the interval of the configuration, then ends
idle conversations and saves the others, and waits for a full interval again.
-/
import Parley.Manager

namespace Parley.Manager

def isMaintained (m : Manager) : Bool := m.maintenance.isSome

/-- Clean up and save.  A save that fails is tried again the next time. -/
def maintain (m : Manager) : Manager × List Event :=
  let reply := m.cleanup
  match reply.manager.autosave with
  | .ok (m, _) => (m, reply.events)
  | .error _ => (reply.manager, reply.events)

/-- Let seconds pass for the task.  It runs at most once, however many intervals
have gone by. -/
def tick (m : Manager) (seconds : Nat) : Manager × List Event :=
  match m.maintenance with
  | none => (m, [])
  | some waited =>
    if waited + seconds < m.config.cleanupInterval then
      ({ m with maintenance := some (waited + seconds) }, [])
    else
      let (m, events) := m.maintain
      ({ m with maintenance := some 0 }, events)

/-- Stop the task and save a last time. -/
def shutdown (m : Manager) : Manager × Except DialogueError Unit :=
  let m := { m with maintenance := none }
  match m.autosave with
  | .ok (m, _) => (m, .ok ())
  | .error e => (m, .error e)

end Parley.Manager
