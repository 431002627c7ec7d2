/-
The life of a conversation, as its events tell it.

The events addressed to an id tell of a conversation that has not begun, is going on,
or is over.  `Lives id phase log phase'` says that a log takes it from one phase to
another in order, and `Manager.Tracks` that the arena holds the conversation exactly
while it is going on.

* `Lives.starts_add`, `Lives.ends_add`, `Lives.quiet_after_end` — what a log in order
  cannot contain twice, or late;
* `Manager.Tracks.step` — whichever way a step ends a conversation, it takes it out
  and announces its end once;
* `Manager.lifecycle` — so for every run.

Design notes: seven places in the calls end conversations, but there are only three
kinds of steps that do.
-/
import Parley.Proofs.Manager.Run

namespace Parley

/-- Where a conversation is in its life. -/
inductive Phase where
  | unborn
  | going
  | gone
  deriving DecidableEq

namespace Phase

/-- How often a conversation has been started when it comes to a phase. -/
def starts : Phase → Nat
  | unborn => 0
  | going | gone => 1

/-- How often it has been ended. -/
def ends : Phase → Nat
  | unborn | going => 0
  | gone => 1

theorem starts_le (phase : Phase) : phase.starts ≤ 1 := by
  cases phase <;> simp [starts]

theorem ends_le (phase : Phase) : phase.ends ≤ 1 := by
  cases phase <;> simp [ends]

theorem eq_going_iff {phase : Phase} : phase = .going ↔ phase.starts = 1 ∧ phase.ends = 0 := by
  cases phase <;> simp [starts, ends]

end Phase

namespace Occurrence

def isStart : Occurrence → Bool
  | conversationStarted .. => true
  | _ => false

def isEnd : Occurrence → Bool
  | conversationEnded _ => true
  | _ => false

theorem isStart_of_isInner {o : Occurrence} (h : o.isInner = true) : o.isStart = false := by
  cases o <;> first | rfl | exact absurd h (by simp [isInner])

theorem isEnd_of_isInner {o : Occurrence} (h : o.isInner = true) : o.isEnd = false := by
  cases o <;> first | rfl | exact absurd h (by simp [isInner])

theorem isStart_of_isEnd {o : Occurrence} (h : o.isEnd = true) : o.isStart = false := by
  cases o <;> first | rfl | exact absurd h (by simp [isEnd])

theorem isEnd_of_isStart {o : Occurrence} (h : o.isStart = true) : o.isEnd = false := by
  cases o <;> first | rfl | exact absurd h (by simp [isStart])

end Occurrence

namespace Event

/-- The event announces the start of the conversation with this id. -/
def isStartOf (id : String) (e : Event) : Bool := e.conversationId == id && e.occurrence.isStart

def isEndOf (id : String) (e : Event) : Bool := e.conversationId == id && e.occurrence.isEnd

end Event

/-- The events addressed to `id` take its conversation from one phase to another. -/
inductive Lives (id : String) : Phase → List Event → Phase → Prop where
  | nil (phase : Phase) : Lives id phase [] phase
  | other {phase phase' : Phase} {e : Event} {log : List Event} (he : e.conversationId ≠ id)
      (h : Lives id phase log phase') : Lives id phase (e :: log) phase'
  | start {phase' : Phase} {e : Event} {log : List Event} (he : e.conversationId = id)
      (ho : e.occurrence.isStart = true) (h : Lives id .going log phase') :
      Lives id .unborn (e :: log) phase'
  | inner {phase' : Phase} {e : Event} {log : List Event} (he : e.conversationId = id)
      (ho : e.occurrence.isInner = true) (h : Lives id .going log phase') :
      Lives id .going (e :: log) phase'
  | finish {phase' : Phase} {e : Event} {log : List Event} (he : e.conversationId = id)
      (ho : e.occurrence.isEnd = true) (h : Lives id .gone log phase') :
      Lives id .going (e :: log) phase'

namespace Lives

variable {id : String} {phase phase' phase'' : Phase} {log log' : List Event}

theorem append (h : Lives id phase log phase') (h' : Lives id phase' log' phase'') :
    Lives id phase (log ++ log') phase'' := by
  induction h with
  | nil => exact h'
  | other he _ ih => exact .other he (ih h')
  | start he ho _ ih => exact .start he ho (ih h')
  | inner he ho _ ih => exact .inner he ho (ih h')
  | finish he ho _ ih => exact .finish he ho (ih h')

/-- Events of other conversations change nothing. -/
theorem others (h : ∀ e ∈ log, e.conversationId ≠ id) (phase : Phase) :
    Lives id phase log phase := by
  induction log with
  | nil => exact .nil phase
  | cons e rest ih =>
    exact .other (h e List.mem_cons_self) (ih fun e' he' => h e' (List.mem_cons_of_mem e he'))

theorem inners (h : ∀ e ∈ log, e.conversationId = id ∧ e.occurrence.isInner = true) :
    Lives id .going log .going := by
  induction log with
  | nil => exact .nil _
  | cons e rest ih =>
    obtain ⟨he, ho⟩ := h e List.mem_cons_self
    exact .inner he ho (ih fun e' he' => h e' (List.mem_cons_of_mem e he'))

/-- What a phase counts of the events up to it, a log in order adds up. -/
theorem countP_add {q : Event → Bool} {n : Phase → Nat}
    (hother : ∀ e : Event, e.conversationId ≠ id → q e = false)
    (hstart : ∀ e : Event, e.conversationId = id → e.occurrence.isStart = true →
      (q e).toNat + n .unborn = n .going)
    (hinner : ∀ e : Event, e.conversationId = id → e.occurrence.isInner = true → q e = false)
    (hfinish : ∀ e : Event, e.conversationId = id → e.occurrence.isEnd = true →
      (q e).toNat + n .going = n .gone)
    (h : Lives id phase log phase') : log.countP q + n phase = n phase' := by
  have cons (e : Event) (rest : List Event) :
      (e :: rest).countP q = rest.countP q + (q e).toNat := by
    cases hq : q e <;> simp [hq]
  induction h with
  | nil => simp
  | other he _ ih =>
    rw [cons, hother _ he]
    exact ih
  | start he ho _ ih =>
    have := hstart _ he ho
    rw [cons]
    omega
  | inner he ho _ ih =>
    rw [cons, hinner _ he ho]
    exact ih
  | finish he ho _ ih =>
    have := hfinish _ he ho
    rw [cons]
    omega

/-- A log in order has the starts that the phases differ by. -/
theorem starts_add (h : Lives id phase log phase') :
    log.countP (Event.isStartOf id) + phase.starts = phase'.starts := by
  refine h.countP_add (fun e he => ?_) (fun e he ho => ?_) (fun e _ ho => ?_) fun e _ ho => ?_
  · simp [Event.isStartOf, he]
  · simp [Event.isStartOf, he, ho, Phase.starts]
  · rw [Event.isStartOf, Occurrence.isStart_of_isInner ho, Bool.and_false]
  · rw [Event.isStartOf, Occurrence.isStart_of_isEnd ho, Bool.and_false]
    rfl

theorem ends_add (h : Lives id phase log phase') :
    log.countP (Event.isEndOf id) + phase.ends = phase'.ends := by
  refine h.countP_add (fun e he => ?_) (fun e _ ho => ?_) (fun e _ ho => ?_) fun e he ho => ?_
  · simp [Event.isEndOf, he]
  · rw [Event.isEndOf, Occurrence.isEnd_of_isStart ho, Bool.and_false]
    rfl
  · rw [Event.isEndOf, Occurrence.isEnd_of_isInner ho, Bool.and_false]
  · simp [Event.isEndOf, he, ho, Phase.ends]

theorem begun_iff (h : Lives id phase log phase') :
    phase'.starts = 1 ↔ phase.starts = 1 ∨ ∃ e ∈ log, Event.isStartOf id e = true := by
  have total := h.starts_add
  have bound := phase'.starts_le
  rw [← List.countP_pos_iff]
  omega

theorem unended_iff (h : Lives id phase log phase') :
    phase'.ends = 0 ↔ phase.ends = 0 ∧ ∀ e ∈ log, Event.isEndOf id e = false := by
  have total := h.ends_add
  have none : log.countP (Event.isEndOf id) = 0 ↔ ∀ e ∈ log, Event.isEndOf id e = false := by
    rw [List.countP_eq_zero]
    simp only [Bool.not_eq_true]
  rw [← none]
  omega

/-- Nothing is addressed to a conversation that is over. -/
theorem quiet (h : Lives id .gone log phase) : ∀ e ∈ log, e.conversationId ≠ id := by
  induction log with
  | nil => exact fun e he => absurd he List.not_mem_nil
  | cons e rest ih =>
    cases h with
    | other he h =>
      intro e' he'
      rcases List.mem_cons.mp he' with rfl | he'
      · exact he
      · exact ih h e' he'

theorem quiet_after_end {e : Event} (h : Lives id phase (log ++ e :: log') phase')
    (he : e.isEndOf id = true) : ∀ e' ∈ log', e'.conversationId ≠ id := by
  rw [Event.isEndOf, Bool.and_eq_true, beq_iff_eq] at he
  obtain ⟨hid, hend⟩ := he
  induction log generalizing phase with
  | nil =>
    cases h with
    | other hne => exact absurd hid hne
    | start _ ho => exact absurd hend (by simp [Occurrence.isEnd_of_isStart ho])
    | inner _ ho => exact absurd hend (by simp [Occurrence.isEnd_of_isInner ho])
    | finish _ _ h => exact h.quiet
  | cons head rest ih =>
    cases h with
    | other _ h | start _ _ h | inner _ _ h | finish _ _ h => exact ih h

end Lives

/-! ### What the steps announce -/

section Announcements

variable {id : String}

/-- Where a conversation is that a turn has left. -/
def Conversation.phase (c : Conversation) : Phase := if c.isActive then .going else .gone

theorem Conversation.phase_eq_going {c : Conversation} : c.phase = .going ↔ c.isActive = true := by
  rw [phase]
  cases c.isActive <;> simp

/-- A turn tells of its own conversation, which goes on or comes to its end. -/
theorem Play.Played.lives {now : Instant} {c : Conversation} {ps : Participants} {taken : Nat}
    {play : Play} {r : Response}
    (h : (Play.ofConversation c ps taken).Played Context.ids now play r) :
    Lives c.id .going play.events play.conversation.phase := by
  obtain ⟨told, hevents, htold⟩ := h.events
  have hid : play.conversation.id = c.id := h.continues.id
  have inners : Lives c.id .going told .going := by
    refine .inners fun e he => ?_
    obtain ⟨ctx, o, hctx, ho, rfl⟩ := htold e he
    exact ⟨congrArg Context.Ids.conversation hctx, ho⟩
  have closing : Lives c.id .going (play.conversation.closing now) play.conversation.phase := by
    rw [Conversation.closing, Conversation.phase]
    cases play.conversation.isActive with
    | true => exact .nil _
    | false => exact .finish hid rfl (.nil _)
  rw [hevents]
  exact inners.append closing

/-- A turn tells of no other conversation. -/
theorem Play.Played.others {now : Instant} {c : Conversation} {ps : Participants} {taken : Nat}
    {play : Play} {r : Response}
    (h : (Play.ofConversation c ps taken).Played Context.ids now play r) (hne : c.id ≠ id) :
    ∀ e ∈ play.events, e.conversationId ≠ id := by
  obtain ⟨told, hevents, htold⟩ := h.events
  have hid : play.conversation.id = c.id := h.continues.id
  have address : ∀ e ∈ play.events, e.conversationId = c.id := by
    intro e he
    rw [hevents, show (Play.ofConversation c ps taken).events = [] from rfl, List.nil_append]
      at he
    rcases List.mem_append.mp he with he | he
    · obtain ⟨ctx, o, hctx, _, rfl⟩ := htold e he
      exact congrArg Context.Ids.conversation hctx
    · rw [Conversation.closing] at he
      split at he
      · exact absurd he List.not_mem_nil
      · obtain rfl := List.mem_singleton.mp he
        exact hid
  intro e he
  rw [address e he]
  exact hne

end Announcements

namespace Manager

variable {α : Type} {f : Context → α} {m m' : Manager} {id : String} {phase : Phase}
  {events : List Event}

theorem endEvents_append (m : Manager) (reason : EndReason) (ids ids' : List String) :
    m.endEvents reason (ids ++ ids') = m.endEvents reason ids ++ m.endEvents reason ids' :=
  List.filterMap_append

/-- Ends are announced only of named conversations that are held. -/
theorem mem_endEvents {e : Event} {reason : EndReason} {ids : List String}
    (he : e ∈ m.endEvents reason ids) :
    ∃ id ∈ ids, ∃ c, m.arena.get? id = some c ∧ e = c.endEvent reason m.now := by
  obtain ⟨id, hmem, hsome⟩ := List.mem_filterMap.mp he
  obtain ⟨c, hc, rfl⟩ := Option.map_eq_some_iff.mp hsome
  exact ⟨id, hmem, c, hc, rfl⟩

theorem endEvents_others (ha : m.arena.Sound) (reason : EndReason) {ids : List String}
    (h : id ∈ ids → m.arena.contains id = false) :
    ∀ e ∈ m.endEvents reason ids, e.conversationId ≠ id := by
  intro e he heq
  obtain ⟨id', hmem, c, hc, rfl⟩ := mem_endEvents he
  have hid : id' = id := (ha.id_eq hc).symm.trans heq
  subst hid
  have := Arena.contains_of_get? hc
  rw [h hmem] at this
  exact absurd this (by simp)

theorem endEvents_lives (ha : m.arena.Sound) (reason : EndReason) {ids : List String}
    (hids : ids.Nodup) (hmem : id ∈ ids) (hheld : m.arena.contains id = true) :
    Lives id .going (m.endEvents reason ids) .gone := by
  rw [Arena.contains_eq_isSome] at hheld
  obtain ⟨c, hc⟩ := Option.isSome_iff_exists.mp hheld
  obtain ⟨before, after, rfl⟩ := List.append_of_mem hmem
  obtain ⟨-, hafter, hbefore⟩ := List.nodup_append.mp hids
  have hnotBefore : id ∉ before := fun h => hbefore id h id List.mem_cons_self rfl
  have hnotAfter : id ∉ after := (List.nodup_cons.mp hafter).1
  have this : m.endEvents reason (id :: after) =
      c.endEvent reason m.now :: m.endEvents reason after := by
    rw [endEvents, List.filterMap_cons_some (by rw [hc]; rfl)]
    rfl
  rw [endEvents_append, this]
  refine .append (.others (endEvents_others ha reason fun h => absurd h hnotBefore) _) ?_
  exact .finish (ha.id_eq hc) rfl
    (.others (endEvents_others ha reason fun h => absurd h hnotAfter) _)

/-! ### The invariant -/

/-- The ids to come differ from each other and from all that are held. -/
structure Fresh (m : Manager) : Prop where
  distinct : Function.Injective m.forum.ids.name
  unheld : ∀ n, m.forum.ids.issued ≤ n → m.arena.contains (m.forum.ids.name n) = false

/-- The arena holds the conversation while it is going on, and when it is over its id
is not given again. -/
structure Tracks (m : Manager) (id : String) (phase : Phase) : Prop where
  held : m.arena.contains id = true ↔ phase = .going
  spent : phase = .gone → ∀ n, m.forum.ids.issued ≤ n → m.forum.ids.name n ≠ id

theorem Tracks.of_same (h : m.Tracks id phase) (hids : m'.forum.ids = m.forum.ids)
    (hsame : m'.arena.contains id = m.arena.contains id) : m'.Tracks id phase := by
  refine ⟨hsame ▸ h.held, ?_⟩
  rw [hids]
  exact h.spent

/-- What is held has an id that is not to come. -/
theorem Fresh.spent (h : m.Fresh) (hheld : m.arena.contains id = true) :
    ∀ n, m.forum.ids.issued ≤ n → m.forum.ids.name n ≠ id := by
  rintro n hn rfl
  rw [h.unheld n hn] at hheld
  exact absurd hheld (by simp)

/-- A turn leaves the arena with its conversation if that goes on, and else without. -/
theorem contains_turned (hm : m.Sound f) {id' : String} {c : Conversation}
    {p : Provider} {ps : Participants} {play : Play} {r : Response}
    (hc : m.arena.get? id' = some c)
    (hplayed : (Play.ofConversation (c.touch m.now) ps p.taken).Played f m.now play r)
    (id : String) :
    (m.settle (p.turned m.forum ps play r)).manager.arena.contains id =
      if id' = id then play.conversation.isActive else m.arena.contains id := by
  have same : play.conversation.id = c.id := hplayed.continues.id
  have hid : play.conversation.id = id' := same.trans (hm.arena.id_eq hc)
  have present : m.arena.contains play.conversation.id = true := by
    rw [hid]
    exact Arena.contains_of_get? hc
  show (m.arena.settle play.conversation).contains id = _
  rw [Arena.contains_settle present, hid]

theorem contains_opened {p : Provider} {ps : Participants} {tree : Tree} {play : Play}
    {r : Response}
    (hplayed : (Play.ofConversation (p.newConversation m.forum ps tree) ps p.taken).Played f
      m.now play r) (id : String) :
    (m.settle (p.opened m.forum ps tree play r)).manager.arena.contains id =
      (play.conversation.isActive && decide (m.forum.ids.next = id) || m.arena.contains id) := by
  have hid : play.conversation.id = m.forum.ids.next := hplayed.continues.id
  show (if play.conversation.isActive then m.arena.insert play.conversation
    else m.arena).contains id = _
  cases play.conversation.isActive with
  | true => rw [if_pos rfl, Arena.contains_insert, hid, Bool.true_and]
  | false => simp

/-- A step gives the next id or none. -/
theorem Step.ids_cases (hs : Step f m m' events) :
    m'.forum.ids = m.forum.ids ∨ m'.forum.ids = m.forum.ids.advance := by
  cases hs with
  | aside now _ _ hforum => exact .inl (by rw [hforum])
  | registered | edited | dropped | ended | turned | switched => exact .inl rfl
  | opened => exact .inr rfl

/-- What is held after a step was held before it for the same player and NPC, or has the id that
the step gives. -/
theorem Step.held_cases (hm : m.Sound f) (hs : Step f m m' events) {c' : Conversation}
    (hc' : m'.arena.get? id = some c') :
    (∃ c, m.arena.get? id = some c ∧ c'.ids = c.ids) ∨
    (m.forum.ids.next = id ∧ m'.forum.ids = m.forum.ids.advance) := by
  cases hs with
  | aside now _ _ hforum =>
    rw [Manager.arena, hforum] at hc'
    exact .inl ⟨c', hc', rfl⟩
  | registered | edited | dropped => exact .inl ⟨c', hc', rfl⟩
  | ended => exact .inl ⟨c', (Arena.get?_without_cases hc').2, rfl⟩
  | @opened _ _ _ play _ _ _ _ hplayed =>
    have hid : play.conversation.id = m.forum.ids.next := hplayed.continues.id
    replace hc' : (if play.conversation.isActive then m.arena.insert play.conversation
      else m.arena).get? id = some c' := hc'
    split at hc'
    · rw [Arena.get?_insert, hid] at hc'
      split at hc'
      · rename_i hnext
        exact .inr ⟨hnext, rfl⟩
      · exact .inl ⟨c', hc', rfl⟩
    · exact .inl ⟨c', hc', rfl⟩
  | @turned id' c _ _ play _ hc _ _ hplayed =>
    have same : play.conversation.ids = c.ids := hplayed.continues.ids
    have hid : play.conversation.id = id' :=
      (congrArg Context.Ids.conversation same).trans (hm.arena.id_eq hc)
    replace hc' : (m.arena.settle play.conversation).get? id = some c' := hc'
    rw [Arena.get?_settle (hid ▸ Arena.contains_of_get? hc), hid] at hc'
    split at hc'
    · rename_i heq
      subst heq
      split at hc'
      · obtain rfl := Option.some.inj hc'
        exact .inl ⟨c, hc, same⟩
      · exact absurd hc' (by simp)
    · exact .inl ⟨c', hc', rfl⟩
  | @switched id' providerId c _ hc =>
    replace hc' : (m.arena.update id' { c with providerId }).get? id = some c' := hc'
    rw [Arena.get?_update] at hc'
    split at hc'
    · rename_i heq
      subst heq
      obtain ⟨_, -, rfl⟩ := Option.map_eq_some_iff.mp hc'
      exact .inl ⟨c, hc, rfl⟩
    · exact .inl ⟨c', hc', rfl⟩

theorem Step.contains_cases (hm : m.Sound f) (hs : Step f m m' events)
    (hheld : m'.arena.contains id = true) :
    m.arena.contains id = true ∨
    (m.forum.ids.next = id ∧ m'.forum.ids = m.forum.ids.advance) := by
  rw [Arena.contains_eq_isSome] at hheld
  obtain ⟨c', hc'⟩ := Option.isSome_iff_exists.mp hheld
  refine (hs.held_cases hm hc').imp_left ?_
  rintro ⟨c, hc, -⟩
  exact Arena.contains_of_get? hc

/-- Ids are given in the order of their names. -/
theorem Step.issued_le (hs : Step f m m' events) :
    m'.forum.ids.name = m.forum.ids.name ∧ m.forum.ids.issued ≤ m'.forum.ids.issued := by
  rcases hs.ids_cases with hids | hids <;> rw [hids]
  · exact ⟨rfl, Nat.le_refl _⟩
  · exact ⟨rfl, Nat.le_succ _⟩

theorem Steps.issued_le (hs : Steps f m m' events) :
    m'.forum.ids.name = m.forum.ids.name ∧ m.forum.ids.issued ≤ m'.forum.ids.issued := by
  induction hs with
  | refl => exact ⟨rfl, Nat.le_refl _⟩
  | head hstep _ ih =>
    obtain ⟨hname, hissued⟩ := hstep.issued_le
    exact ⟨ih.1.trans hname, Nat.le_trans hissued ih.2⟩

theorem Fresh.step (h : m.Fresh) (hm : m.Sound f) (hs : Step f m m' events) : m'.Fresh := by
  obtain ⟨hname, hissued⟩ := hs.issued_le
  refine ⟨hname ▸ h.distinct, fun n hn => Bool.eq_false_iff.mpr fun hheld => ?_⟩
  rw [hname] at hheld
  rcases hs.contains_cases hm hheld with hbefore | ⟨hnext, hids⟩
  · rw [h.unheld n (Nat.le_trans hissued hn)] at hbefore
    exact absurd hbefore (by simp)
  · -- The id that a step gives is not one of those to come after it.
    have given : m'.forum.ids.issued = m.forum.ids.issued + 1 := congrArg IdSupply.issued hids
    have := h.distinct hnext
    omega

theorem Fresh.steps (h : m.Fresh) (hm : m.Sound f) (hs : Steps f m m' events) : m'.Fresh := by
  induction hs with
  | refl => exact h
  | head hstep _ ih => exact ih (h.step hm hstep) (hm.step hstep)

/-- The end is announced exactly if the conversation is named and held. -/
theorem Tracks.ended (h : m.Tracks id phase) (hm : m.Sound Context.ids) (hfresh : m.Fresh)
    (reason : EndReason) {ids : List String} (hids : ids.Nodup) :
    ∃ phase', Lives id phase (m.endEvents reason ids) phase' ∧
      (m.withArena (m.arena.without ids)).Tracks id phase' := by
  by_cases hends : id ∈ ids ∧ m.arena.contains id = true
  · obtain ⟨hmem, hheld⟩ := hends
    obtain rfl := h.held.mp hheld
    refine ⟨.gone, endEvents_lives hm.arena reason hids hmem hheld, ?_, fun _ => ?_⟩
    · show (m.arena.without ids).contains id = true ↔ _
      rw [Arena.contains_without]
      simp [hmem]
    · exact hfresh.spent hheld
  · refine ⟨phase, .others (endEvents_others hm.arena reason fun hmem => ?_) _,
      h.of_same rfl ?_⟩
    · rw [Bool.eq_false_iff]
      exact fun hheld => hends ⟨hmem, hheld⟩
    · show (m.arena.without ids).contains id = _
      rw [Arena.contains_without]
      by_cases hmem : id ∈ ids
      · have unheld : m.arena.contains id = false :=
          Bool.eq_false_iff.mpr fun hheld => hends ⟨hmem, hheld⟩
        rw [unheld, Bool.and_false]
      · simp [hmem]

/-- Nothing can have happened to a conversation whose id is still to come. -/
theorem Tracks.unborn (h : m.Tracks m.forum.ids.next phase) (hfresh : m.Fresh) :
    phase = .unborn := by
  have unheld : m.arena.contains m.forum.ids.next = false := hfresh.unheld _ (Nat.le_refl _)
  cases phase with
  | unborn => rfl
  | going =>
    have := h.held.mpr rfl
    rw [unheld] at this
    exact absurd this (by simp)
  | gone => exact absurd rfl (h.spent rfl _ (Nat.le_refl _))

/-- A conversation that is over when its first turn is was never held. -/
theorem Tracks.opened (h : m.Tracks id phase) (hfresh : m.Fresh) {p : Provider}
    {ps : Participants} {tree : Tree} {play : Play} {r : Response}
    (hplayed : (Play.ofConversation (p.newConversation m.forum ps tree) ps p.taken).Played
      Context.ids m.now play r) :
    ∃ phase', Lives id phase (p.startEvent m.forum ps tree :: play.events) phase' ∧
      (m.settle (p.opened m.forum ps tree play r)).manager.Tracks id phase' := by
  by_cases hnew : m.forum.ids.next = id
  · subst hnew
    have unheld : m.arena.contains m.forum.ids.next = false := hfresh.unheld _ (Nat.le_refl _)
    obtain rfl := h.unborn hfresh
    refine ⟨play.conversation.phase, .start rfl rfl hplayed.lives, ?_, fun _ n hn => ?_⟩
    · rw [contains_opened hplayed, unheld, decide_eq_true rfl, Conversation.phase_eq_going]
      simp
    · have later : m.forum.ids.issued + 1 ≤ n := hn
      intro heq
      have := hfresh.distinct heq
      omega
  · refine ⟨phase, .other hnew (.others (hplayed.others hnew) _), ?_, fun hgone n hn => ?_⟩
    · rw [contains_opened hplayed, decide_eq_false hnew, Bool.and_false, Bool.false_or]
      exact h.held
    · have later : m.forum.ids.issued + 1 ≤ n := hn
      exact h.spent hgone n (by omega)

theorem Tracks.turned (h : m.Tracks id phase) (hm : m.Sound Context.ids) (hfresh : m.Fresh)
    {id' : String} {c : Conversation} {p : Provider} {ps : Participants} {play : Play}
    {r : Response} (hc : m.arena.get? id' = some c)
    (hplayed : (Play.ofConversation (c.touch m.now) ps p.taken).Played Context.ids m.now
      play r) :
    ∃ phase', Lives id phase play.events phase' ∧
      (m.settle (p.turned m.forum ps play r)).manager.Tracks id phase' := by
  have same : c.id = id' := hm.arena.id_eq hc
  by_cases hid : id' = id
  · subst hid
    have hheld : m.arena.contains id' = true := Arena.contains_of_get? hc
    obtain rfl := h.held.mp hheld
    have lives : Lives c.id .going play.events play.conversation.phase := hplayed.lives
    rw [same] at lives
    refine ⟨play.conversation.phase, lives, ?_, fun _ => hfresh.spent hheld⟩
    rw [contains_turned hm hc hplayed, if_pos rfl, Conversation.phase_eq_going]
  · have hne : (c.touch m.now).id ≠ id := fun heq => hid (same.symm.trans heq)
    refine ⟨phase, .others (hplayed.others hne) _, h.of_same rfl ?_⟩
    rw [contains_turned hm hc hplayed, if_neg hid]

theorem Tracks.switched (h : m.Tracks id phase) (hm : m.Sound Context.ids)
    {id' providerId : String} {c : Conversation} (hc : m.arena.get? id' = some c) :
    Lives id phase [Event.ofConversation { c with providerId } m.now
        (.providerSwitched c.providerId providerId)] phase ∧
      (m.withArena (m.arena.update id' { c with providerId })).Tracks id phase := by
  have same : c.id = id' := hm.arena.id_eq hc
  refine ⟨?_, h.of_same rfl (Arena.contains_update _ _ _ _)⟩
  by_cases hid : id' = id
  · subst hid
    obtain rfl := h.held.mp (Arena.contains_of_get? hc)
    exact .inner same rfl (.nil _)
  · exact .other (fun heq => hid (same.symm.trans heq)) (.nil _)

/-- Every step keeps the arena and the announcements together. -/
theorem Tracks.step (h : m.Tracks id phase) (hm : m.Sound Context.ids) (hfresh : m.Fresh)
    (hs : Step Context.ids m m' events) :
    ∃ phase', Lives id phase events phase' ∧ m'.Tracks id phase' := by
  cases hs with
  | aside now _ _ hforum =>
    exact ⟨phase, .nil _, h.of_same (by rw [hforum]) (by rw [Manager.arena, hforum]; rfl)⟩
  | registered | edited | dropped => exact ⟨phase, .nil _, h.of_same rfl rfl⟩
  | ended reason hids => exact h.ended hm hfresh reason hids
  | opened _ _ _ hplayed => exact h.opened hfresh hplayed
  | turned hc _ _ hplayed => exact h.turned hm hfresh hc hplayed
  | switched hc _ => exact ⟨phase, h.switched hm hc⟩

theorem Tracks.steps (h : m.Tracks id phase) (hm : m.Sound Context.ids) (hfresh : m.Fresh)
    (hs : Steps Context.ids m m' events) :
    ∃ phase', Lives id phase events phase' ∧ m'.Tracks id phase' := by
  induction hs generalizing phase with
  | refl => exact ⟨phase, .nil _, h⟩
  | head hstep _ ih =>
    obtain ⟨phase', hlives, htracks⟩ := h.step hm hfresh hstep
    obtain ⟨phase'', hlives', htracks'⟩ := ih htracks (hm.step hstep) (hfresh.step hm hstep)
    exact ⟨phase'', hlives.append hlives', htracks'⟩

/-- A sound manager whose custom actions leave the ids alone. -/
theorem Sound.withIds (hm : m.Sound fun _ => ())
    (hhooks : ∀ providerId p, m.providers.get? providerId = some p → p.KeepsIds) :
    m.Sound Context.ids :=
  hm.withSteady fun providerId p hp => steady_ids (hhooks providerId p hp)

/-- In a run a conversation starts at most once and ends at most once, its end is the
last that is heard of it, and it is held exactly if it was held at first, as after a
launch that restored it, or has started, and has not ended. -/
theorem lifecycle (hm : m.Reachable) (hfresh : m.Fresh)
    (hhooks : ∀ providerId p, m.providers.get? providerId = some p → p.KeepsIds)
    {cs : List Call} (hlaunch : ∀ c ∈ cs, c.isLaunch = false)
    (hcs : ∀ c ∈ cs, ∀ p ∈ c.providers, p.Authored ∧ p.KeepsIds) (id : String) :
    (m.run cs).2.countP (Event.isStartOf id) ≤ 1 ∧
    (m.run cs).2.countP (Event.isEndOf id) ≤ 1 ∧
    (∀ before e after, (m.run cs).2 = before ++ e :: after → e.isEndOf id = true →
      ∀ e' ∈ after, e'.conversationId ≠ id) ∧
    ((m.run cs).1.arena.contains id = true ↔
      (m.arena.contains id = true ∨ ∃ e ∈ (m.run cs).2, e.isStartOf id = true) ∧
        ∀ e ∈ (m.run cs).2, e.isEndOf id = false) := by
  have sound := hm.sound.withIds hhooks
  have steps := run_steps sound fun c hc =>
    ⟨hlaunch c hc, fun p hp => ⟨(hcs c hc p hp).1, steady_ids (hcs c hc p hp).2⟩⟩
  -- A conversation that is held at first counts as one that has started.
  let first : Phase := if m.arena.contains id then .going else .unborn
  have tracks : m.Tracks id first := by
    cases hheld : m.arena.contains id <;> constructor <;> simp [first, hheld]
  have heldFirst : first.starts = 1 ↔ m.arena.contains id = true := by
    cases hheld : m.arena.contains id <;> simp [first, hheld, Phase.starts]
  have unendedFirst : first.ends = 0 := by
    cases hheld : m.arena.contains id <;> simp [first, hheld, Phase.ends]
  obtain ⟨last, hlives, htracks⟩ := tracks.steps sound hfresh steps
  have hstarts := hlives.starts_add
  have hends := hlives.ends_add
  have atMostStarts := last.starts_le
  have atMostEnds := last.ends_le
  refine ⟨by omega, by omega, fun before e after heq he => ?_, ?_⟩
  · rw [heq] at hlives
    exact hlives.quiet_after_end he
  · rw [htracks.held, Phase.eq_going_iff, hlives.begun_iff, hlives.unended_iff, heldFirst]
    exact and_congr_right fun _ => and_iff_right unendedFirst

end Manager

/-- No id of the inn is the one of its restored conversation. -/
theorem Inn.reopened_fresh : Inn.reopened.Fresh := by
  refine ⟨Inn.reopened_ids ▸ Inn.ids_injective, fun n _ => ?_⟩
  rw [Inn.reopened_arena, Arena.contains_insert, Inn.reopened_ids]
  have hne : "evening" ≠ Inn.ids.name n := by
    intro heq
    have letters : 'e' ∈ (Inn.ids.name n).toList := heq ▸ by decide
    simp [Inn.ids] at letters
  rw [show Inn.evening.id = "evening" from rfl, decide_eq_false hne]
  rfl

theorem Inn.reopened_keepsIds (providerId : String) (p : Provider)
    (hp : Inn.reopened.providers.get? providerId = some p) : p.KeepsIds := by
  have hmem := Dict.mem_values.mpr ⟨providerId, hp⟩
  rw [Inn.reopened_providers] at hmem
  obtain rfl := List.mem_singleton.mp hmem
  intro run hrun
  rw [show (Inn.keeper.prepare {} none).hook = none from rfl] at hrun
  exact absurd hrun (by simp)

namespace Manager

/-- The restored conversation goes on to its end, and is not ended again. -/
theorem lifecycle_reopened :
    let calls : List Call := [.advance Inn.guest "evening" "", .finish "evening"]
    Inn.reopened.arena.contains "evening" = true ∧
    (Inn.reopened.run calls).2.countP (Event.isEndOf "evening") = 1 ∧
    (Inn.reopened.run calls).2.countP (Event.isStartOf "evening") ≤ 1 ∧
    ((Inn.reopened.run calls).1.arena.contains "evening" = true ↔
      (Inn.reopened.arena.contains "evening" = true ∨
        ∃ e ∈ (Inn.reopened.run calls).2, e.isStartOf "evening" = true) ∧
      ∀ e ∈ (Inn.reopened.run calls).2, e.isEndOf "evening" = false) := by
  intro calls
  have noLaunch : ∀ c ∈ calls, c.isLaunch = false := by decide
  have noProvider : ∀ c ∈ calls, c.providers = [] := by simp [calls, Call.providers]
  obtain ⟨hstart, -, -, hheld⟩ := lifecycle Inn.reopened_reachable Inn.reopened_fresh
    Inn.reopened_keepsIds noLaunch
    (fun c hc p hp => absurd (noProvider c hc ▸ hp) List.not_mem_nil) "evening"
  exact ⟨by decide, by decide, hstart, hheld⟩

end Manager

end Parley
