/-
Who the events of a conversation are addressed to.

An event names a conversation, a player and an NPC.  The end of a conversation and its change of
provider are addressed from the state that is kept; what a turn announces on the way is
addressed from the context, which has the player and the NPC that came with the line of input.
The player was compared with the state, the NPC was not:

* `Manager.advance_addressed`, `Manager.serve_addressed` — what one request announces;
* `Manager.Sees` — the states of a conversation that can be seen in a run;
* `Manager.Sees.unique` — all of them record the same player and the same NPC;
* `Manager.addressing` — every event goes to the player recorded, and to the NPC recorded
  exactly if each line of input came with it.

Design notes: an end is always addressed as recorded, so a line of input that announces nothing
else may come with any NPC.
-/
import Parley.Proofs.Manager.Requests

namespace Parley

/-- Who an event is addressed to. -/
def Event.ids (e : Event) : Context.Ids :=
  { conversation := e.conversationId, player := e.playerId, npc := e.npcId }

/-- A turn addresses its own end as recorded, and everything else to those who take part. -/
theorem Play.Played.addressed {now : Instant} {c : Conversation} {ps : Participants} {taken : Nat}
    {play : Play} {r : Response}
    (h : (Play.ofConversation c ps taken).Played Context.ids now play r) {e : Event}
    (he : e ∈ play.events) :
    (e.occurrence.isEnd = true ∧ e.ids = c.ids) ∨
    (e.occurrence.isEnd = false ∧ e.ids = ⟨c.id, ps.player.id, ps.npc.id⟩) := by
  obtain ⟨told, hevents, htold⟩ := h.events
  have same : play.conversation.ids = c.ids := h.continues.ids
  rw [hevents, show (Play.ofConversation c ps taken).events = [] from rfl, List.nil_append] at he
  rcases List.mem_append.mp he with he | he
  · obtain ⟨ctx, o, hctx, ho, rfl⟩ := htold e he
    exact .inr ⟨Occurrence.isEnd_of_isInner ho, hctx⟩
  · rw [Conversation.closing] at he
    split at he
    · exact absurd he List.not_mem_nil
    · obtain rfl := List.mem_singleton.mp he
      exact .inl ⟨rfl, same⟩

namespace Manager

variable {m m' : Manager} {ps : Participants} {id input : String} {providerId : Option String}
  {e : Event} {r : Response}

/-! ### What one request announces -/

theorem advance_addressed (hm : m.Sound Context.ids) (he : e ∈ (m.advance ps id input).events) :
    ∃ c, m.arena.get? id = some c ∧ c.playerId = ps.player.id ∧
      ((e.occurrence.isEnd = true ∧ e.ids = c.ids) ∨
        (e.occurrence.isEnd = false ∧ e.ids = ⟨c.id, ps.player.id, ps.npc.id⟩)) := by
  have advanced := advance_cases hm ps id input
  generalize m.advance ps id input = reply at advanced he
  cases advanced with
  | absent | stranger | treeless | nodeless => exact absurd he List.not_mem_nil
  | @lapsed c hc howner =>
    obtain rfl := List.mem_singleton.mp he
    exact ⟨c, hc, howner, .inl ⟨rfl, rfl⟩⟩
  | @turned c p tree n play r hc howner _ _ _ _ hplayed =>
    exact ⟨c, hc, howner, hplayed.addressed he⟩

/-- What a start announces: the ends of idle conversations, and what belongs to the new one. -/
theorem start_addressed (hm : m.Sound Context.ids) (he : e ∈ (m.start ps providerId).events) :
    (∃ id c, m.arena.get? id = some c ∧ e.ids = c.ids) ∨
    ∃ r, (m.start ps providerId).result.response = .ok r ∧ e.ids = r.state.ids := by
  have idle (he : e ∈ (m.expirePlayer ps.player.id).2) :
      ∃ id c, m.arena.get? id = some c ∧ e.ids = c.ids := by
    rw [expirePlayer_endEvents hm] at he
    obtain ⟨id, -, c, hc, rfl⟩ := mem_endEvents he
    exact ⟨id, c, hc, rfl⟩
  cases hr : (m.start ps providerId).result.response with
  | error error =>
    rw [start_refused hm hr] at he
    exact .inl (idle he)
  | ok r =>
    obtain ⟨p, tree, play, opens⟩ := start_ok hm hr
    have played := opens.played hm
    have recorded : r.state.ids = (p.newConversation m.forum ps tree).ids := by
      rw [played.shows.state]
      exact played.continues.ids
    rw [opens.events_eq] at he
    rcases List.mem_append.mp he with he | he
    · exact .inl (idle he)
    · refine .inr ⟨r, rfl, ?_⟩
      rw [recorded]
      rcases List.mem_cons.mp he with rfl | he
      · rfl
      · -- A new conversation is recorded for those who take part in its first turn.
        rcases played.addressed he with ⟨-, hids⟩ | ⟨-, hids⟩ <;> exact hids

/-- Every event goes to those its conversation is recorded for, but for the NPC of an event in a
turn, who came with the line of input. -/
theorem serve_addressed (hm : m.Sound Context.ids) (request : Request)
    (he : e ∈ (m.serve request).events) :
    (∃ id c, m.arena.get? id = some c ∧ e.ids = c.ids) ∨
    (∃ ps providerId r, request = .start ps providerId ∧
      (m.start ps providerId).result.response = .ok r ∧ e.ids = r.state.ids) ∨
    ∃ ps id input c, request = .advance ps id input ∧ m.arena.get? id = some c ∧
      c.playerId = ps.player.id ∧ e.occurrence.isEnd = false ∧
      e.ids = ⟨c.id, ps.player.id, ps.npc.id⟩ := by
  cases request with
  | start ps providerId =>
    rcases start_addressed hm he with hkept | ⟨r, hr, hids⟩
    · exact .inl hkept
    · exact .inr (.inl ⟨ps, providerId, r, rfl, hr, hids⟩)
  | advance ps id input =>
    obtain ⟨c, hc, howner, ⟨-, hids⟩ | ⟨hinner, hids⟩⟩ := advance_addressed hm he
    · exact .inl ⟨id, c, hc, hids⟩
    · exact .inr (.inr ⟨ps, id, input, c, rfl, hc, howner, hinner, hids⟩)
  | finish id =>
    replace he : e ∈ (m.finish id).events := he
    cases hc : m.arena.get? id with
    | none =>
      rw [finish_absent hc] at he
      exact absurd he List.not_mem_nil
    | some c =>
      rw [finish_held hm hc] at he
      obtain rfl := List.mem_singleton.mp he
      exact .inl ⟨id, c, hc, rfl⟩
  | switchProvider id providerId =>
    have switched := switchProvider_cases m id providerId
    replace he : e ∈ (m.switchProvider id providerId).events := he
    generalize m.switchProvider id providerId = reply at switched he
    cases switched with
    | refused | same => exact absurd he List.not_mem_nil
    | @moved c _ hc =>
      obtain rfl := List.mem_singleton.mp he
      exact .inl ⟨id, c, hc, rfl⟩
  | conversationsOf => exact absurd he List.not_mem_nil
  | cleanup =>
    replace he : e ∈ m.cleanup.events := he
    rw [cleanup_endEvents hm] at he
    obtain ⟨id, -, c, hc, rfl⟩ := mem_endEvents he
    exact .inl ⟨id, c, hc, rfl⟩

/-! ### States that can be seen -/

/-- A state of a conversation that is held before or after some request of a run, or that comes
with the answer to one. -/
inductive Sees : Manager → List (Instant × Request) → Conversation → Prop where
  | held {m : Manager} {requests : List (Instant × Request)} {id : String} {c : Conversation}
      (hc : m.conversation? id = some c) : Sees m requests c
  | answered {m : Manager} {now : Instant} {request : Request}
      {rest : List (Instant × Request)} {answer : Answer} {r : Response}
      (hanswer : ((m.atTime now).serve request).result = .answered answer)
      (hr : answer.response = .ok r) : Sees m ((now, request) :: rest) r.state
  | later {m : Manager} {now : Instant} {request : Request} {rest : List (Instant × Request)}
      {c : Conversation} (h : Sees ((m.atTime now).serve request).manager rest c) :
      Sees m ((now, request) :: rest) c

/-- The events of a run. -/
def eventsOf (m : Manager) (requests : List (Instant × Request)) : List Event :=
  (m.serveAll requests).2.flatMap Served.events

theorem eventsOf_cons (m : Manager) (now : Instant) (request : Request)
    (rest : List (Instant × Request)) :
    m.eventsOf ((now, request) :: rest) = ((m.atTime now).serve request).events ++
      ((m.atTime now).serve request).manager.eventsOf rest := rfl

/-- A line of input comes with the NPC recorded, or has only ends to announce. -/
def Attends (m : Manager) : Request → Prop
  | .advance ps id input => ∀ c, m.conversation? id = some c →
      ps.npc.id = c.npcId ∨ ∀ e ∈ (m.advance ps id input).events, e.occurrence.isEnd = true
  | _ => True

/-- So does every line of input of a run. -/
def KeepsCompany (m : Manager) : List (Instant × Request) → Prop
  | [] => True
  | (now, request) :: rest => (m.atTime now).Attends request ∧
      ((m.atTime now).serve request).manager.KeepsCompany rest

/-- An event goes to the player recorded in a state that can be seen, and to its NPC if the
lines of input came with it. -/
theorem sees_of_mem_eventsOf (hm : m.Sound Context.ids) {requests : List (Instant × Request)}
    (he : e ∈ m.eventsOf requests) :
    ∃ c, m.Sees requests c ∧ c.id = e.conversationId ∧ e.playerId = c.playerId ∧
      (m.KeepsCompany requests → e.npcId = c.npcId) := by
  induction requests generalizing m with
  | nil => exact absurd he List.not_mem_nil
  | cons timed rest ih =>
    obtain ⟨now, request⟩ := timed
    have hm' := hm.atTime now
    have recorded {c : Conversation} (h : e.ids = c.ids) :
        c.id = e.conversationId ∧ e.playerId = c.playerId ∧ e.npcId = c.npcId := by
      obtain ⟨hid, hplayer, hnpc⟩ := Context.Ids.mk.inj h
      exact ⟨hid.symm, hplayer, hnpc⟩
    rw [eventsOf_cons] at he
    rcases List.mem_append.mp he with he | he
    · rcases serve_addressed hm' request he with ⟨id, c, hc, hids⟩ |
        ⟨ps, providerId, r, rfl, hr, hids⟩ | ⟨ps, id, input, c, rfl, hc, howner, hinner, hids⟩
      · obtain ⟨hid, hplayer, hnpc⟩ := recorded hids
        exact ⟨c, .held hc, hid, hplayer, fun _ => hnpc⟩
      · obtain ⟨hid, hplayer, hnpc⟩ := recorded hids
        exact ⟨r.state, .answered rfl hr, hid, hplayer, fun _ => hnpc⟩
      · obtain ⟨hid, hplayer, hnpc⟩ := Context.Ids.mk.inj hids
        refine ⟨c, .held hc, hid.symm, hplayer.trans howner.symm, fun hkeeps => ?_⟩
        rcases hkeeps.1 c hc with hattends | hends
        · exact hnpc.trans hattends
        · rw [hends e he] at hinner
          exact absurd hinner (by simp)
    · obtain ⟨c, hsees, hid, hplayer, hnpc⟩ := ih (hm'.serve request) he
      exact ⟨c, .later hsees, hid, hplayer, fun hkeeps => hnpc hkeeps.2⟩

/-- If every event goes to the NPC recorded, the lines of input came with it. -/
theorem keepsCompany_of_addressed (hm : m.Sound Context.ids) {requests : List (Instant × Request)}
    (h : ∀ e ∈ m.eventsOf requests, ∀ c, m.Sees requests c → c.id = e.conversationId →
      e.npcId = c.npcId) : m.KeepsCompany requests := by
  induction requests generalizing m with
  | nil => trivial
  | cons timed rest ih =>
    obtain ⟨now, request⟩ := timed
    have hm' := hm.atTime now
    rw [eventsOf_cons] at h
    refine ⟨?_, ih (hm'.serve request) fun e he c hsees hid =>
      h e (List.mem_append_right _ he) c (.later hsees) hid⟩
    cases request with
    | advance ps id input =>
      intro c hc
      rw [or_iff_not_imp_right]
      intro hends
      obtain ⟨e, he, hinner⟩ : ∃ e ∈ ((m.atTime now).advance ps id input).events,
          ¬ e.occurrence.isEnd = true := by
        simpa using hends
      obtain ⟨c', hc', -, ⟨hend, -⟩ | ⟨-, hids⟩⟩ := advance_addressed hm' he
      · exact absurd hend hinner
      · obtain rfl : c' = c := Option.some.inj (hc'.symm.trans hc)
        obtain ⟨hid, -, hnpc⟩ := Context.Ids.mk.inj hids
        exact hnpc.symm.trans (h e (List.mem_append_left _ he) c' (.held hc) hid.symm)
    | _ => trivial

/-! ### What is recorded stays -/

/-- As long as no id is given, no conversation is held but those that were, each for the same
player and NPC. -/
theorem Steps.held_ids {α : Type} {f : Context → α} {events : List Event} (hm : m.Sound f)
    (hs : Steps f m m' events) (hissued : m'.forum.ids.issued = m.forum.ids.issued) {id : String}
    {c' : Conversation} (hc' : m'.arena.get? id = some c') :
    ∃ c, m.arena.get? id = some c ∧ c'.ids = c.ids := by
  induction hs generalizing c' with
  | refl => exact ⟨c', hc', rfl⟩
  | @head m m' _ _ _ hstep hrest ih =>
    -- Neither the first step nor the others have given an id.
    obtain ⟨-, hfirst⟩ := hstep.issued_le
    obtain ⟨-, hlast⟩ := hrest.issued_le
    obtain ⟨c, hc, hids⟩ := ih (hm.step hstep) (by omega) hc'
    rcases hstep.held_cases hm hc with ⟨c₀, hc₀, hids₀⟩ | ⟨-, hgiven⟩
    · exact ⟨c₀, hc₀, hids.trans hids₀⟩
    · have given : m'.forum.ids.issued = m.forum.ids.issued + 1 :=
        congrArg IdSupply.issued hgiven
      omega

/-- A book says who conversations are recorded for: those that are held are entered, and those
to come are not. -/
structure Knows (m : Manager) (book : String → Option Context.Ids) : Prop where
  distinct : Function.Injective m.forum.ids.name
  held : ∀ id c, m.arena.get? id = some c → book id = some c.ids
  upcoming : ∀ n, m.forum.ids.issued ≤ n → book (m.forum.ids.name n) = none

variable {book book' : String → Option Context.Ids}

/-- Nothing is crossed out. -/
def Continued (book book' : String → Option Context.Ids) : Prop :=
  ∀ id ids, book id = some ids → book' id = some ids

/-- Enter who a conversation is recorded for. -/
def enter (book : String → Option Context.Ids) (ids : Context.Ids) : String → Option Context.Ids :=
  fun id => if id = ids.conversation then some ids else book id

theorem enter_self (book : String → Option Context.Ids) (ids : Context.Ids) :
    enter book ids ids.conversation = some ids :=
  if_pos rfl

theorem enter_other {ids : Context.Ids} (hne : id ≠ ids.conversation) :
    enter book ids id = book id :=
  if_neg hne

/-- An entry for a new conversation crosses nothing out. -/
theorem continued_enter {ids : Context.Ids} (hnew : book ids.conversation = none) :
    Continued book (enter book ids) := by
  intro id ids' hknown
  have hne : id ≠ ids.conversation := by
    rintro rfl
    rw [hnew] at hknown
    exact absurd hknown (by simp)
  rw [enter_other hne, hknown]

theorem Fresh.knows (h : m.Fresh) :
    m.Knows fun id => (m.arena.get? id).map Conversation.ids := by
  refine ⟨h.distinct, fun id c hc => by rw [hc]; rfl, fun n hn => ?_⟩
  rw [Arena.get?_eq_none_iff.mpr (h.unheld n hn)]
  rfl

/-- Where no id is given, there is nothing to enter. -/
theorem Knows.steps (h : m.Knows book) (hm : m.Sound Context.ids) {events : List Event}
    (hs : Steps Context.ids m m' events) (hids : m'.forum.ids = m.forum.ids) : m'.Knows book := by
  refine ⟨hids ▸ h.distinct, fun id c' hc' => ?_, hids ▸ h.upcoming⟩
  obtain ⟨c, hc, hsame⟩ := hs.held_ids hm (congrArg IdSupply.issued hids) hc'
  rw [hsame]
  exact h.held id c hc

theorem Knows.start (h : m.Knows book) (hm : m.Sound Context.ids)
    (hr : (m.start ps providerId).result.response = .ok r) :
    ∃ book', Continued book book' ∧ (m.start ps providerId).manager.Knows book' ∧
      book' r.state.id = some r.state.ids := by
  obtain ⟨p, tree, play, opens⟩ := start_ok hm hr
  have hstate : r.state = play.conversation := (opens.played hm).shows.state
  have hid : r.state.ids.conversation = m.forum.ids.next := hstate ▸ opens.id_eq hm
  have unknown : book r.state.ids.conversation = none := by
    rw [hid]
    exact h.upcoming _ (Nat.le_refl _)
  have continued := continued_enter unknown
  refine ⟨enter book r.state.ids, continued, ⟨?_, fun id c hc => ?_, fun n hn => ?_⟩,
    enter_self book r.state.ids⟩
  · rw [opens.ids_eq]
    exact h.distinct
  · have before (hc : (m.afterExpiry ps.player.id).arena.get? id = some c) :
        enter book r.state.ids id = some c.ids :=
      continued id c.ids (h.held id c (Arena.get?_without_cases hc).2)
    rw [opens.arena_eq] at hc
    split at hc
    · rw [Arena.get?_insert] at hc
      split at hc
      · rename_i heq
        obtain rfl := Option.some.inj hc
        rw [← heq, ← hstate]
        exact enter_self book r.state.ids
      · exact before hc
    · exact before hc
  · rw [opens.ids_eq] at hn ⊢
    have later : m.forum.ids.issued + 1 ≤ n := hn
    have hne : m.forum.ids.name n ≠ r.state.ids.conversation := by
      rw [hid]
      intro heq
      have := h.distinct heq
      omega
    show enter book r.state.ids (m.forum.ids.name n) = none
    rw [enter_other hne]
    exact h.upcoming n (by omega)

/-- Each request enters the conversation that it begins, if it begins one. -/
theorem Knows.serve (h : m.Knows book) (hm : m.Sound Context.ids) (request : Request) :
    ∃ book', Continued book book' ∧ (m.serve request).manager.Knows book' ∧
      ∀ answer r, (m.serve request).result = .answered answer → answer.response = .ok r →
        book' r.state.id = some r.state.ids := by
  have steps := serve_steps hm request
  by_cases hstart : ∃ ps providerId, request = .start ps providerId
  · obtain ⟨ps, providerId, rfl⟩ := hstart
    cases hr : (m.start ps providerId).result.response with
    | error error =>
      refine ⟨book, fun _ _ h => h, h.steps hm steps (start_ids_error hm hr), ?_⟩
      intro answer r hanswer hr'
      obtain rfl := Reaction.answered.inj hanswer
      rw [hr] at hr'
      exact absurd hr' (by simp)
    | ok r =>
      obtain ⟨book', hcontinued, hknows, hnew⟩ := h.start hm hr
      refine ⟨book', hcontinued, hknows, fun answer r' hanswer hr' => ?_⟩
      obtain rfl := Reaction.answered.inj hanswer
      rw [hr] at hr'
      obtain rfl := Except.ok.inj hr'
      exact hnew
  · have others := serve_ids hm fun ps providerId heq => hstart ⟨ps, providerId, heq⟩
    refine ⟨book, fun _ _ h => h, h.steps hm steps others, fun answer r hanswer hr => ?_⟩
    cases request with
    | start ps providerId => exact absurd ⟨ps, providerId, rfl⟩ hstart
    | advance ps id input =>
      obtain rfl := Reaction.answered.inj hanswer
      obtain ⟨c, p, tree, n, play, proceeds⟩ := advance_ok hm hr
      have hstate : r.state = play.conversation := (proceeds.played hm).shows.state
      have same : r.state.ids = c.ids := hstate ▸ (proceeds.played hm).continues.ids
      rw [same, hstate, proceeds.id_eq hm]
      exact h.held id c proceeds.held
    | finish | switchProvider | conversationsOf | cleanup => exact absurd hanswer (by nofun)

theorem Knows.sees (h : m.Knows book) (hm : m.Sound Context.ids)
    (requests : List (Instant × Request)) :
    ∃ book', Continued book book' ∧ ∀ c, m.Sees requests c → book' c.id = some c.ids := by
  -- The book is carried through the run; what is seen early is still in it at the end.
  induction requests generalizing m book with
  | nil =>
    refine ⟨book, fun _ _ h => h, fun c hsees => ?_⟩
    cases hsees with
    | held hc => exact (hm.arena.id_eq hc).symm ▸ h.held _ c hc
  | cons timed rest ih =>
    obtain ⟨now, request⟩ := timed
    have hm' := hm.atTime now
    have known : (m.atTime now).Knows book := ⟨h.distinct, h.held, h.upcoming⟩
    obtain ⟨book₁, hcontinued, hknows, hanswered⟩ := known.serve hm' request
    obtain ⟨book₂, hcontinued', hlater⟩ := ih hknows (hm'.serve request)
    refine ⟨book₂, fun id ids h => hcontinued' id ids (hcontinued id ids h), fun c hsees => ?_⟩
    cases hsees with
    | held hc =>
      exact hcontinued' _ _ (hcontinued _ _ ((hm.arena.id_eq hc).symm ▸ h.held _ c hc))
    | answered hanswer hr => exact hcontinued' _ _ (hanswered _ _ hanswer hr)
    | later hsees => exact hlater c hsees

/-- All states of a conversation that can be seen record the same player and the same NPC. -/
theorem Sees.unique (hm : m.Sound Context.ids) (hfresh : m.Fresh)
    {requests : List (Instant × Request)} {c c' : Conversation} (h : m.Sees requests c)
    (h' : m.Sees requests c') (hid : c.id = c'.id) : c.ids = c'.ids := by
  obtain ⟨book, -, hbook⟩ := hfresh.knows.sees hm requests
  have := (hbook c h).symm.trans (hid ▸ hbook c' h')
  exact Option.some.inj this

/-- In a run every event is about a conversation whose state can be seen, and goes to the player
recorded in it; and all of them go to the NPC recorded exactly if each line of input that has
something to announce besides an end came with that NPC. -/
theorem addressing (hm : m.Reachable) (hfresh : m.Fresh)
    (hhooks : ∀ providerId p, m.providers.get? providerId = some p → p.KeepsIds)
    (requests : List (Instant × Request)) :
    (∀ e ∈ m.eventsOf requests, ∃ c, m.Sees requests c ∧ c.id = e.conversationId) ∧
    (∀ e ∈ m.eventsOf requests, ∀ c, m.Sees requests c → c.id = e.conversationId →
      e.playerId = c.playerId) ∧
    ((∀ e ∈ m.eventsOf requests, ∀ c, m.Sees requests c → c.id = e.conversationId →
      e.npcId = c.npcId) ↔ m.KeepsCompany requests) := by
  have sound := hm.sound.withIds hhooks
  refine ⟨fun e he => ?_, fun e he c hsees hid => ?_,
    keepsCompany_of_addressed sound, fun hkeeps e he c hsees hid => ?_⟩
  · obtain ⟨c, hsees, hid, -⟩ := sees_of_mem_eventsOf sound he
    exact ⟨c, hsees, hid⟩
  · obtain ⟨c', hsees', hid', hplayer, -⟩ := sees_of_mem_eventsOf sound he
    have same := hsees.unique sound hfresh hsees' (hid.trans hid'.symm)
    exact hplayer.trans (congrArg Context.Ids.player same).symm
  · obtain ⟨c', hsees', hid', -, hnpc⟩ := sees_of_mem_eventsOf sound he
    have same := hsees.unique sound hfresh hsees' (hid.trans hid'.symm)
    exact (hnpc hkeeps).trans (congrArg Context.Ids.npc same).symm

/-- The guest of the inn talks to its keeper, and so do all events. -/
theorem addressing_reopened :
    let requests := [(Instant.epoch, Request.advance Inn.guest "evening" "")]
    (Inn.reopened.eventsOf requests).length = 2 ∧
    ∀ e ∈ Inn.reopened.eventsOf requests, e.conversationId = "evening" →
      e.playerId = "guest" ∧ e.npcId = "innkeeper" := by
  intro requests
  have held : Inn.reopened.arena.get? "evening" = some Inn.evening := by decide
  have seen : Inn.reopened.Sees requests Inn.evening := .held held
  obtain ⟨-, hplayer, hnpc⟩ := addressing Inn.reopened_reachable Inn.reopened_fresh
    Inn.reopened_keepsIds requests
  have attends : Inn.reopened.KeepsCompany requests := by
    refine ⟨fun c hc => .inl ?_, trivial⟩
    obtain rfl := Option.some.inj (held.symm.trans hc)
    rfl
  refine ⟨by decide +kernel, fun e he hid => ⟨?_, ?_⟩⟩
  · exact hplayer e he Inn.evening seen hid.symm
  · exact hnpc.mpr attends e he Inn.evening seen hid.symm

/-- A guest who names the cook instead is heard by the keeper, but what the turn announces on the
way goes to the cook. -/
theorem addressing_mistaken :
    let requests :=
      [(Instant.epoch, Request.advance { Inn.guest with npc := { id := "cook" } } "evening" "")]
    Inn.reopened.Reachable ∧ Inn.reopened.Fresh ∧
    (∀ providerId p, Inn.reopened.providers.get? providerId = some p → p.KeepsIds) ∧
    ∃ c, Inn.reopened.Sees requests c ∧
      (∃ e ∈ Inn.reopened.eventsOf requests, e.conversationId = c.id ∧ e.playerId = c.playerId ∧
        e.npcId ≠ c.npcId) ∧
      ∃ e ∈ Inn.reopened.eventsOf requests, e.conversationId = c.id ∧ e.npcId = c.npcId := by
  intro requests
  have held : Inn.reopened.arena.get? "evening" = some Inn.evening := by decide
  have addressed : (Inn.reopened.eventsOf requests).map
      (fun e => (e.conversationId, e.playerId, e.npcId)) =
      [("evening", "guest", "cook"), ("evening", "guest", "innkeeper")] := by
    decide +kernel
  have announced (npcId : String) (h : npcId = "cook" ∨ npcId = "innkeeper") :
      ∃ e ∈ Inn.reopened.eventsOf requests,
        (e.conversationId, e.playerId, e.npcId) = ("evening", "guest", npcId) := by
    refine List.mem_map.mp (addressed ▸ ?_)
    rcases h with rfl | rfl <;> simp
  obtain ⟨e, he, hcook⟩ := announced "cook" (.inl rfl)
  obtain ⟨e', he', hkeeper⟩ := announced "innkeeper" (.inr rfl)
  simp only [Prod.mk.injEq] at hcook hkeeper
  obtain ⟨hid, hplayer, hnpc⟩ := hcook
  obtain ⟨hid', -, hnpc'⟩ := hkeeper
  refine ⟨Inn.reopened_reachable, Inn.reopened_fresh, Inn.reopened_keepsIds, Inn.evening,
    .held held, ⟨e, he, hid, hplayer, ?_⟩, e', he', hid', hnpc'⟩
  rw [hnpc]
  decide

end Manager

end Parley
