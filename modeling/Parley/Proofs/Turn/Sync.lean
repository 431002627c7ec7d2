/-
What a turn leaves in its context is what the conversation is kept with.

Variables and flags are written to the context while a turn runs, and copied to the
conversation when the turn is answered, on some exits before the conversation is ended and
on others after it.  A play is `Synced` if nothing was written after the copy:

* `Turn.respond_synced`, `Turn.farewell_synced` — so it is wherever a turn is answered;
* `Turn.begin_synced`, `Turn.advance_synced` — so it is after a whole turn.
-/
import Parley.Proofs.Turn

namespace Parley

/-- The conversation has the variables and the flags of the context. -/
structure Play.Synced (p : Play) : Prop where
  vars : p.conversation.vars = p.context.conversation.vars
  flags : p.conversation.flags = p.context.conversation.flags

/-- The end of a conversation leaves both as they are. -/
theorem Play.Synced.conclude {p : Play} (h : p.Synced) (now : Instant) :
    (p.conclude now).Synced := by
  cases hactive : p.conversation.isActive with
  | true =>
    rw [Play.conclude_active hactive]
    exact ⟨h.vars, h.flags⟩
  | false =>
    rwa [Play.conclude_ended hactive]

namespace Turn

variable {t : Turn} {p : Play} {r : Response}

theorem respond_synced (t : Turn) (p : Play) (n : Node) : (t.respond p n).1.Synced := ⟨rfl, rfl⟩

theorem farewell_synced (t : Turn) (p : Play) : (t.farewell p).1.Synced := by
  have synced : p.sync.Synced := ⟨rfl, rfl⟩
  exact synced.conclude t.rules.now

theorem proceed_synced {target : Option String} {input : String}
    (h : (t.proceed p target input).2 = .ok r) : (t.proceed p target input).1.Synced := by
  rw [proceed] at h ⊢
  cases hfilter : target.filter (!·.isEmpty) with
  | none => exact farewell_synced t p
  | some nodeId =>
    rw [hfilter] at h
    cases hnode : t.node nodeId with
    | error e =>
      simp only [hnode] at h
      exact absurd h (by simp)
    | ok n =>
      simp only [hnode]
      exact respond_synced t _ n

theorem begin_synced (h : (t.begin p).2 = .ok r) : (t.begin p).1.Synced := by
  rw [Turn.begin] at h ⊢
  cases hnode : t.node p.conversation.currentNodeId with
  | error e =>
    simp only [hnode] at h
    exact absurd h (by simp)
  | ok n => exact respond_synced t _ n

theorem advance_synced {n : Node} (hn : t.tree.node? p.conversation.currentNodeId = some n)
    {input : String} (h : (t.advance p input).2 = .ok r) : (t.advance p input).1.Synced := by
  rcases advance_cases hn input with ⟨-, hgo⟩ | ⟨c, -, hgo⟩ | ⟨-, -, hgo⟩
  · rw [hgo] at h ⊢
    exact proceed_synced h
  · rw [hgo] at h ⊢
    exact proceed_synced h
  · rw [hgo]
    exact respond_synced t _ n

end Turn

end Parley
