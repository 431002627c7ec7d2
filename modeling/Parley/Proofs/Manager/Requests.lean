/-
Requests to a manager, each at its own time.

`Manager.serve` answers one `Request`, and `Manager.serveAll` a list of them, with a
transcript of what each was answered and what it announced:

* `Manager.serve_steps` — serving a request is made of steps, so it keeps a manager sound;
* `Manager.serve_setup` — and keeps its providers, where nothing is left to chance;
* `Manager.start_ids_ok`, `Manager.serve_ids` — only a start that is answered spends an id;
* `Manager.given_upcoming` — the ids given to a player come from those that were to come.
-/
import Parley.Proofs.Chance
import Parley.Proofs.Continuation
import Parley.Proofs.Opening

namespace Parley

/-- What can be asked about conversations. -/
inductive Request where
  | start (ps : Participants) (providerId : Option String)
  | advance (ps : Participants) (id input : String)
  | finish (id : String)
  | switchProvider (id providerId : String)
  | conversationsOf (playerId : String)
  | cleanup

inductive Reaction where
  | answered (answer : Answer)
  | finished (found : Bool)
  | switched (result : Except DialogueError Conversation)
  | listed (conversations : List Conversation)
  | cleaned (count : Nat)

def Reply.map {α β : Type} (f : α → β) (r : Reply α) : Reply β :=
  { manager := r.manager, events := r.events, calls := r.calls, result := f r.result }

/-- A request that was served. -/
structure Served where
  request : Request
  reaction : Reaction
  events : List Event

/-- The id of a conversation that a player was given by a start. -/
def Served.given? (player : String) (s : Served) : Option String :=
  match s.request, s.reaction with
  | .start ps _, .answered answer =>
    if ps.player.id = player then answer.response.toOption.map Response.conversationId else none
  | _, _ => none

namespace Manager

def serve (m : Manager) : Request → Reply Reaction
  | .start ps providerId => (m.start ps providerId).map .answered
  | .advance ps id input => (m.advance ps id input).map .answered
  | .finish id => (m.finish id).map .finished
  | .switchProvider id providerId => (m.switchProvider id providerId).map .switched
  | .conversationsOf playerId =>
    { manager := m, result := .listed (m.conversationsOf playerId) }
  | .cleanup => m.cleanup.map .cleaned

def served (m : Manager) (request : Request) : Served :=
  { request, reaction := (m.serve request).result, events := (m.serve request).events }

/-- Serve requests in turn, each at its time. -/
def serveAll (m : Manager) : List (Instant × Request) → Manager × List Served
  | [] => (m, [])
  | (now, request) :: rest =>
    let (m', others) := ((m.atTime now).serve request).manager.serveAll rest
    (m', (m.atTime now).served request :: others)

variable {α : Type} {f : Context → α} {m : Manager}

theorem serve_steps (hm : m.Sound f) (request : Request) :
    Steps f m (m.serve request).manager (m.serve request).events := by
  cases request with
  | start ps providerId => exact start_steps hm ps providerId
  | advance ps id input => exact advance_steps hm ps id input
  | finish id => exact finish_steps hm id
  | switchProvider id providerId => exact switchProvider_steps m id providerId
  | conversationsOf => exact .refl m
  | cleanup => exact cleanup_steps hm

theorem Sound.atTime (hm : m.Sound f) (now : Instant) : (m.atTime now).Sound f :=
  hm.steps (atTime_steps m now)

theorem Sound.serve (hm : m.Sound f) (request : Request) : (m.serve request).manager.Sound f :=
  hm.steps (serve_steps hm request)

theorem Fresh.atTime (h : m.Fresh) (now : Instant) : (m.atTime now).Fresh :=
  ⟨h.distinct, h.unheld⟩

/-! ### What requests cannot change -/

/-- Everything that calls are decided by besides the conversations, the ids and the clock. -/
structure SameSetup (m m' : Manager) : Prop where
  config : m'.config = m.config
  providers : m'.providers = m.providers
  defaultProvider : m'.defaultProvider = m.defaultProvider
  settings : m'.forum.settings = m.forum.settings

namespace SameSetup

variable {m' m'' : Manager}

theorem refl (m : Manager) : m.SameSetup m := ⟨rfl, rfl, rfl, rfl⟩

theorem symm (h : m.SameSetup m') : m'.SameSetup m :=
  ⟨h.config.symm, h.providers.symm, h.defaultProvider.symm, h.settings.symm⟩

theorem trans (h : m.SameSetup m') (h' : m'.SameSetup m'') : m.SameSetup m'' :=
  ⟨h'.config.trans h.config, h'.providers.trans h.providers,
    h'.defaultProvider.trans h.defaultProvider, h'.settings.trans h.settings⟩

end SameSetup

theorem start_setup (hm : m.Sound f) (hchance : m.Chanceless) (ps : Participants)
    (providerId : Option String) : m.SameSetup (m.start ps providerId).manager := by
  cases hr : (m.start ps providerId).result.response with
  | error e =>
    rw [start_refused hm hr]
    exact ⟨rfl, rfl, rfl, rfl⟩
  | ok r =>
    obtain ⟨p, tree, play, opens⟩ := start_ok hm hr
    have undrawn := opens.providers_eq hm hchance
    rw [opens.start_eq] at undrawn ⊢
    exact ⟨rfl, undrawn, rfl, rfl⟩

theorem advance_setup (hm : m.Sound f) (hchance : m.Chanceless) (ps : Participants)
    (id input : String) : m.SameSetup (m.advance ps id input).manager := by
  cases hr : (m.advance ps id input).result.response with
  | error e =>
    have advanced := advance_cases hm ps id input
    by_cases htimeout : e = .timeout id
    · subst htimeout
      obtain ⟨c, -, hreply⟩ := advanced.timedOut hr
      rw [hreply]
      exact ⟨rfl, rfl, rfl, rfl⟩
    · rw [advanced.refused hr htimeout]
      exact ⟨rfl, rfl, rfl, rfl⟩
  | ok r =>
    obtain ⟨c, p, tree, n, play, proceeds⟩ := advance_ok hm hr
    have undrawn := proceeds.providers_eq hm hchance
    rw [proceeds.advance_eq hm] at undrawn ⊢
    exact ⟨rfl, undrawn, rfl, rfl⟩

/-- Where nothing is left to chance, requests leave the providers as they are. -/
theorem serve_setup (hm : m.Sound f) (hchance : m.Chanceless) (request : Request) :
    m.SameSetup (m.serve request).manager := by
  cases request with
  | start ps providerId => exact start_setup hm hchance ps providerId
  | advance ps id input => exact advance_setup hm hchance ps id input
  | finish id =>
    show m.SameSetup (m.finish id).manager
    cases hc : m.arena.get? id with
    | none =>
      rw [finish_absent hc]
      exact .refl m
    | some c =>
      rw [finish_held hm hc]
      exact ⟨rfl, rfl, rfl, rfl⟩
  | switchProvider id providerId =>
    have switched := switchProvider_cases m id providerId
    show m.SameSetup (m.switchProvider id providerId).manager
    generalize m.switchProvider id providerId = reply at switched
    cases switched with
    | refused | same => exact .refl m
    | moved => exact ⟨rfl, rfl, rfl, rfl⟩
  | conversationsOf => exact .refl m
  | cleanup => exact ⟨rfl, rfl, rfl, rfl⟩

theorem SameSetup.chanceless {m' : Manager} (h : m.SameSetup m') (hm : m.Chanceless) :
    m'.Chanceless := by
  rw [Chanceless, h.providers]
  exact hm

/-! ### Ids -/

/-- A start that is answered spends one id, and names the conversation by it. -/
theorem start_ids_ok (hm : m.Sound f) {ps : Participants} {providerId : Option String}
    {r : Response} (hr : (m.start ps providerId).result.response = .ok r) :
    r.conversationId = m.forum.ids.next ∧
      (m.start ps providerId).manager.forum.ids = m.forum.ids.advance := by
  obtain ⟨p, tree, play, opens⟩ := start_ok hm hr
  exact ⟨opens.conversationId_eq hm, opens.ids_eq⟩

theorem start_ids_error (hm : m.Sound f) {ps : Participants} {providerId : Option String}
    {e : DialogueError} (he : (m.start ps providerId).result.response = .error e) :
    (m.start ps providerId).manager.forum.ids = m.forum.ids := by
  rw [start_refused hm he]
  rfl

/-- No other request spends one. -/
theorem serve_ids (hm : m.Sound f) {request : Request}
    (hrequest : ∀ ps providerId, request ≠ .start ps providerId) :
    (m.serve request).manager.forum.ids = m.forum.ids := by
  cases request with
  | start ps providerId => exact absurd rfl (hrequest ps providerId)
  | advance ps id input =>
    have advanced := advance_cases hm ps id input
    show (m.advance ps id input).manager.forum.ids = m.forum.ids
    generalize m.advance ps id input = reply at advanced
    cases advanced <;> rfl
  | finish id =>
    show (m.finish id).manager.forum.ids = m.forum.ids
    cases hc : m.arena.get? id with
    | none => rw [finish_absent hc]
    | some c =>
      rw [finish_held hm hc]
      rfl
  | switchProvider id providerId =>
    have switched := switchProvider_cases m id providerId
    show (m.switchProvider id providerId).manager.forum.ids = m.forum.ids
    generalize m.switchProvider id providerId = reply at switched
    cases switched <;> rfl
  | conversationsOf | cleanup => rfl

/-- Ids are spent in the order of their names. -/
theorem serve_issued (hm : m.Sound f) (request : Request) :
    (m.serve request).manager.forum.ids.name = m.forum.ids.name ∧
      m.forum.ids.issued ≤ (m.serve request).manager.forum.ids.issued :=
  (serve_steps hm request).issued_le

/-- Only the answer to a player's start gives an id to the player. -/
theorem given?_served {player id : String} {request : Request}
    (h : (m.served request).given? player = some id) :
    ∃ ps providerId r, request = .start ps providerId ∧ ps.player.id = player ∧
      (m.start ps providerId).result.response = .ok r ∧ r.conversationId = id := by
  cases request with
  | start ps providerId =>
    replace h : (if ps.player.id = player then
      (m.start ps providerId).result.response.toOption.map Response.conversationId
      else none) = some id := h
    split at h
    · rename_i hplayer
      obtain ⟨r, hr, hid⟩ := Option.map_eq_some_iff.mp h
      refine ⟨ps, providerId, r, rfl, hplayer, ?_, hid⟩
      cases hresponse : (m.start ps providerId).result.response with
      | error e =>
        rw [hresponse] at hr
        exact absurd hr (by simp [Except.toOption])
      | ok r' =>
        rw [hresponse] at hr
        exact congrArg Except.ok (Option.some.inj hr)
    · exact absurd h (by simp)
  | advance | finish | switchProvider | conversationsOf | cleanup =>
    exact absurd h (by simp [served, Served.given?])

/-- It is the next id, which is then spent. -/
theorem given?_next (hm : m.Sound f) {player id : String} {request : Request}
    (h : (m.served request).given? player = some id) :
    id = m.forum.ids.next ∧ (m.serve request).manager.forum.ids = m.forum.ids.advance := by
  obtain ⟨ps, providerId, r, rfl, -, hr, rfl⟩ := given?_served h
  exact start_ids_ok hm hr

theorem given?_start {ps : Participants} {providerId : Option String} {r : Response}
    (hr : (m.start ps providerId).result.response = .ok r) :
    (m.served (.start ps providerId)).given? ps.player.id = some r.conversationId := by
  show (if ps.player.id = ps.player.id then
    (m.start ps providerId).result.response.toOption.map Response.conversationId else none) = _
  rw [if_pos rfl, hr]
  rfl

/-- The ids that a player is given by starts. -/
def given (m : Manager) (player : String) (requests : List (Instant × Request)) : List String :=
  (m.serveAll requests).2.filterMap (Served.given? player)

theorem given_cons (m : Manager) (player : String) (now : Instant) (request : Request)
    (rest : List (Instant × Request)) :
    m.given player ((now, request) :: rest) =
      (((m.atTime now).served request).given? player).toList ++
        ((m.atTime now).serve request).manager.given player rest := by
  rw [given, serveAll]
  show (_ :: _).filterMap _ = _
  cases hgiven : ((m.atTime now).served request).given? player with
  | none =>
    rw [List.filterMap_cons_none hgiven]
    rfl
  | some id =>
    rw [List.filterMap_cons_some hgiven]
    rfl

theorem given_upcoming (hm : m.Sound f) {player id : String}
    {requests : List (Instant × Request)} (h : id ∈ m.given player requests) :
    ∃ n, m.forum.ids.issued ≤ n ∧ m.forum.ids.name n = id := by
  -- By induction on the requests, each served by another manager with fewer ids to come.
  induction requests generalizing m with
  | nil => exact absurd h List.not_mem_nil
  | cons timed rest ih =>
    obtain ⟨now, request⟩ := timed
    have hm' := hm.atTime now
    rw [given_cons] at h
    rcases List.mem_append.mp h with h | h
    · exact ⟨m.forum.ids.issued, Nat.le_refl _, (given?_next hm' (Option.mem_toList.mp h)).1.symm⟩
    · obtain ⟨hname, hissued⟩ := serve_issued hm' request
      obtain ⟨n, hn, hid⟩ := ih (hm'.serve request) h
      rw [hname] at hid
      exact ⟨n, Nat.le_trans hissued hn, hid⟩

end Manager

end Parley
