/-
How a call comes by the conversation that it leaves under an id.

A call may take a conversation out.  What is held when it is done, it comes by in few ways:

* `Manager.answers`, `Manager.answers_iff` — the call is a line of input for the conversation,
  and is answered;
* `Manager.Holding` — what is held was so before, was handed over, has begun, or was given that
  line of input;
* `Manager.perform_holding` — so it is after every call that is not a launch.
-/
import Parley.Proofs.Handover

namespace Parley.Manager

variable {α : Type} {f : Context → α} {m : Manager} {id : String} {c' : Conversation}

/-- The call is a line of input for the conversation, and is answered. -/
def answers (m : Manager) (id : String) : Call → Bool
  | .advance ps id' input => id' == id && (m.advance ps id' input).result.response.isOk
  | _ => false

theorem answers_iff {call : Call} :
    m.answers id call = true ↔
      ∃ ps input r, call = .advance ps id input ∧ (m.advance ps id input).result.response = .ok r := by
  constructor
  · intro h
    cases call with
    | advance ps id' input =>
      rw [answers, Bool.and_eq_true, beq_iff_eq] at h
      obtain ⟨rfl, hok⟩ := h
      cases hr : (m.advance ps id' input).result.response with
      | error e =>
        rw [hr] at hok
        exact absurd hok (by simp [Except.isOk, Except.toBool])
      | ok r => exact ⟨ps, input, r, rfl, hr⟩
    | _ => exact absurd h (by simp [answers])
  · rintro ⟨ps, input, r, rfl, hr⟩
    rw [answers, hr, beq_self_eq_true]
    rfl

inductive Holding (m : Manager) (id : String) : Call → Conversation → Prop where
  | kept {call : Call} {c : Conversation} (hsilent : m.answers id call = false)
      (hc : m.arena.get? id = some c) : Holding m id call c
  | handed {c : Conversation} (providerId : String) (hc : m.arena.get? id = some c) :
      Holding m id (.switchProvider id providerId) { c with providerId }
  | began {ps : Participants} {providerId : Option String} {p : Provider} {tree : Tree}
      {play : Play} {r : Response} (hopens : m.Opens ps providerId p tree play r)
      (hnext : m.forum.ids.next = id) : Holding m id (.start ps providerId) play.conversation
  | spoke {ps : Participants} {input : String} {c : Conversation} {p : Provider} {tree : Tree}
      {n : Node} {play : Play} {r : Response}
      (hproceeds : m.Proceeds ps id input c p tree n play r) :
      Holding m id (.advance ps id input) play.conversation

theorem start_holding (hm : m.Sound f) (ps : Participants) (providerId : Option String)
    (hc' : (m.start ps providerId).manager.arena.get? id = some c') :
    m.Holding id (.start ps providerId) c' := by
  cases hr : (m.start ps providerId).result.response with
  | error e =>
    rw [start_refused hm hr] at hc'
    exact .kept rfl (Arena.get?_without_cases hc').2
  | ok r =>
    obtain ⟨p, tree, play, opens⟩ := start_ok hm hr
    rw [opens.arena_eq] at hc'
    split at hc'
    · rw [Arena.get?_insert, opens.id_eq hm] at hc'
      split at hc'
      · rename_i hnext
        obtain rfl := Option.some.inj hc'
        exact .began opens hnext
      · exact .kept rfl (Arena.get?_without_cases hc').2
    · exact .kept rfl (Arena.get?_without_cases hc').2

/-- A line of input is looked for under its own id, and no other conversation hears of it. -/
theorem advance_holding (hm : m.Sound f) (ps : Participants) (id' input : String)
    (hc' : (m.advance ps id' input).manager.arena.get? id = some c') :
    m.Holding id (.advance ps id' input) c' := by
  have advanced := advance_cases hm ps id' input
  cases hr : (m.advance ps id' input).result.response with
  | error e =>
    have silent : m.answers id (.advance ps id' input) = false := by
      rw [answers, hr]
      exact Bool.and_false _
    by_cases htimeout : e = .timeout id'
    · subst htimeout
      obtain ⟨c, -, hreply⟩ := advanced.timedOut hr
      rw [hreply] at hc'
      replace hc' : (m.arena.remove id').get? id = some c' := hc'
      rw [← Arena.without_nil (m.arena.remove id'), Arena.without_remove] at hc'
      exact .kept silent (Arena.get?_without_cases hc').2
    · rw [advanced.refused hr htimeout] at hc'
      exact .kept silent hc'
  | ok r =>
    obtain ⟨c, p, tree, n, play, proceeds⟩ := advance_ok hm hr
    have present : m.arena.contains play.conversation.id = true := by
      rw [proceeds.id_eq hm]
      exact Arena.contains_of_get? proceeds.held
    rw [proceeds.advance_eq hm] at hc'
    replace hc' : (m.arena.settle play.conversation).get? id = some c' := hc'
    rw [Arena.get?_settle present, proceeds.id_eq hm] at hc'
    split at hc'
    · rename_i hid
      subst hid
      split at hc'
      · obtain rfl := Option.some.inj hc'
        exact .spoke proceeds
      · exact absurd hc' (by simp)
    · rename_i hother
      refine .kept ?_ hc'
      rw [answers, beq_eq_false_iff_ne.mpr hother, Bool.false_and]

theorem switchProvider_holding (id' providerId : String)
    (hc' : (m.switchProvider id' providerId).manager.arena.get? id = some c') :
    m.Holding id (.switchProvider id' providerId) c' := by
  have switched := switchProvider_cases m id' providerId
  generalize m.switchProvider id' providerId = reply at switched hc'
  cases switched with
  | refused | same => exact .kept rfl hc'
  | @moved c _ hc =>
    replace hc' : (m.arena.update id' { c with providerId }).get? id = some c' := hc'
    rw [Arena.get?_update] at hc'
    split at hc'
    · rename_i hid
      subst hid
      obtain ⟨_, -, rfl⟩ := Option.map_eq_some_iff.mp hc'
      exact .handed providerId hc
    · exact .kept rfl hc'

/-- Only a start, a line of input and a handover leave a conversation other than it was. -/
theorem perform_holding (hm : m.Sound f) {call : Call} (hlaunch : call.isLaunch = false)
    (hc' : (m.perform call).1.arena.get? id = some c') : m.Holding id call c' := by
  cases call with
  | launch => exact absurd hlaunch (by simp [Call.isLaunch])
  | register p =>
    rw [perform] at hc'
    cases hregister : m.register p with
    | error =>
      rw [hregister] at hc'
      exact .kept rfl hc'
    | ok m' =>
      rw [hregister] at hc'
      exact .kept rfl ((register_preserves hregister).held c' hc')
  | unregister providerId => exact .kept rfl ((unregister_preserves m id providerId).held c' hc')
  | setDefault providerId =>
    rw [perform, setDefault] at hc'
    split at hc' <;> exact .kept rfl hc'
  | editProvider providerId e =>
    rw [perform, editProvider] at hc'
    split at hc' <;> exact .kept rfl hc'
  | start ps providerId => exact start_holding hm ps providerId hc'
  | advance ps id' input => exact advance_holding hm ps id' input hc'
  | finish id' => exact .kept rfl ((finish_preserves hm id id').held c' hc')
  | switchProvider id' providerId => exact switchProvider_holding id' providerId hc'
  | cleanup => exact .kept rfl ((cleanup_preserves m id).held c' hc')
  | autosave =>
    rw [perform] at hc'
    cases hsave : m.autosave with
    | error =>
      rw [hsave] at hc'
      exact .kept rfl hc'
    | ok saved =>
      obtain ⟨m', count⟩ := saved
      obtain ⟨store, rfl⟩ := autosave_frame hsave
      rw [hsave] at hc'
      exact .kept rfl hc'
  | setClock | startMaintenance => exact .kept rfl hc'
  | tick seconds => exact .kept rfl ((tick_preserves m id seconds).held c' hc')
  | shutdown => exact .kept rfl ((shutdown_preserves m id).held c' hc')

end Parley.Manager
