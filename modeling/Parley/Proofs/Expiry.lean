/-
When a conversation times out.

A cleanup, a line of input, a start and a restart each look for idle conversations in a
way of their own.  They draw the line at the same nanosecond:

* `Manager.filter_endEvents` — of a conversation that is held, one end is announced if it
  is named and none otherwise;
* `Manager.cleanup_timesOut`, `Manager.start_timesOut` — what these calls do to a
  conversation that is overdue, and to one that is not;
* `Manager.advance_timeout_iff`, `Manager.restore_get?` — what a line of input answers, and
  what a restart takes up again;
* `Manager.cleanup_events_perm`, `Manager.cleanup_cleanup` — a cleanup ends all that is
  overdue, and nothing is left for a second one;
* `Manager.expiry` — so in every state, at every time.

Design notes: a call that spares a conversation must leave it as it was, so what the calls
do is said in two halves and the equivalences follow.  A start whose id is taken would put
its conversation in the place of another, so the next id has to be a new one.
-/
import Parley.Proofs.Opening

namespace Parley

variable {α : Type} {f : Context → α}

/-- A call has timed a conversation out: it announces that and no other end of it, and the
conversation is not held any more. -/
structure Reply.TimesOut (reply : Reply α) (now : Instant) (c : Conversation) : Prop where
  announced : reply.events.filter (Event.isEndOf c.id) = [c.endEvent .timeout now]
  gone : reply.manager.arena.get? c.id = none

/-- A call has let a conversation be. -/
structure Reply.Spares (reply : Reply α) (c : Conversation) : Prop where
  silent : reply.events.filter (Event.isEndOf c.id) = []
  held : reply.manager.arena.get? c.id = some c

theorem Reply.Spares.not_timesOut {reply : Reply α} {now : Instant} {c : Conversation}
    (h : reply.Spares c) : ¬ reply.TimesOut now c := by
  intro h'
  have := h.held
  rw [h'.gone] at this
  exact absurd this (by simp)

/-- What a call does that ends the conversations with some ids. -/
theorem Reply.timesOut_iff {reply : Reply α} {now : Instant} {c : Conversation}
    {overdue : Bool} (ids : List String)
    (hevents : reply.events.filter (Event.isEndOf c.id) =
      if c.id ∈ ids then [c.endEvent .timeout now] else [])
    (hget : reply.manager.arena.get? c.id = if c.id ∈ ids then none else some c)
    (hids : c.id ∈ ids ↔ overdue = true) :
    (reply.TimesOut now c ↔ overdue = true) ∧ (reply.Spares c ↔ overdue = false) := by
  cases overdue with
  | true =>
    have hmem := hids.mpr rfl
    have out : reply.TimesOut now c := by
      rw [if_pos hmem] at hevents hget
      exact ⟨hevents, hget⟩
    exact ⟨iff_of_true out rfl, iff_of_false (fun spared => spared.not_timesOut out) (by simp)⟩
  | false =>
    have hmem : c.id ∉ ids := fun h => absurd (hids.mp h) (by simp)
    have spared : reply.Spares c := by
      rw [if_neg hmem] at hevents hget
      exact ⟨hevents, hget⟩
    exact ⟨iff_of_false spared.not_timesOut (by simp), iff_of_true spared rfl⟩

theorem filter_isEndOf_others {id : String} {log : List Event}
    (h : ∀ e ∈ log, e.conversationId ≠ id) : log.filter (Event.isEndOf id) = [] := by
  rw [List.filter_eq_nil_iff]
  intro e he
  simp [Event.isEndOf, h e he]

/-- The only end that a turn can announce is that of its own conversation. -/
theorem Play.Played.filter_isEndOf {now : Instant} {c : Conversation} {ps : Participants}
    {taken : Nat} {play : Play} {r : Response} {id : String}
    (h : (Play.ofConversation c ps taken).Played f now play r) (hne : c.id ≠ id) :
    play.events.filter (Event.isEndOf id) = [] := by
  obtain ⟨told, hevents, htold⟩ := h.events
  have hid : play.conversation.id ≠ id := h.continues.id ▸ hne
  rw [List.filter_eq_nil_iff]
  intro e he
  rw [hevents, show (Play.ofConversation c ps taken).events = [] from rfl, List.nil_append] at he
  rcases List.mem_append.mp he with he | he
  · obtain ⟨ctx, o, -, ho, rfl⟩ := htold e he
    simp [Event.isEndOf, Event.ofContext, Occurrence.isEnd_of_isInner ho]
  · rw [Conversation.closing] at he
    split at he
    · exact absurd he List.not_mem_nil
    · obtain rfl := List.mem_singleton.mp he
      simp [Event.isEndOf, Conversation.endEvent, Event.ofConversation, hid]

namespace Manager

variable {m : Manager} {id : String} {c : Conversation}

/-- Of a conversation that is held, one end is announced if it is named. -/
theorem filter_endEvents (hm : m.Sound f) (hc : m.arena.get? id = some c) (reason : EndReason)
    {ids : List String} (hids : ids.Nodup) :
    (m.endEvents reason ids).filter (Event.isEndOf id) =
      if id ∈ ids then [c.endEvent reason m.now] else [] := by
  split
  · rename_i hmem
    obtain ⟨before, after, rfl⟩ := List.append_of_mem hmem
    obtain ⟨-, hafter, hbefore⟩ := List.nodup_append.mp hids
    have notBefore : id ∉ before := fun h => hbefore id h id List.mem_cons_self rfl
    have notAfter : id ∉ after := (List.nodup_cons.mp hafter).1
    have own : (c.endEvent reason m.now).isEndOf id = true := by
      rw [Event.isEndOf, Bool.and_eq_true, beq_iff_eq]
      exact ⟨hm.arena.id_eq hc, rfl⟩
    have named : m.endEvents reason (id :: after) =
        c.endEvent reason m.now :: m.endEvents reason after := by
      rw [endEvents, List.filterMap_cons_some (by rw [hc]; rfl)]
      rfl
    rw [endEvents_append, named, List.filter_append, List.filter_cons_of_pos own,
      filter_isEndOf_others (endEvents_others hm.arena reason fun h => absurd h notBefore),
      filter_isEndOf_others (endEvents_others hm.arena reason fun h => absurd h notAfter),
      List.nil_append]
  · rename_i hmem
    exact filter_isEndOf_others (endEvents_others hm.arena reason fun h => absurd h hmem)

/-! ### Cleanups -/

theorem stale_iff (hm : m.Sound f) (hc : m.arena.get? id = some c) :
    id ∈ m.arena.staleIds m.now m.timeout ↔ c.isExpired m.now m.timeout = true := by
  rw [Arena.mem_staleIds hm.arena, hc]
  simp

theorem cleanup_timesOut (hm : m.Sound f) (hc : m.arena.get? id = some c) :
    (m.cleanup.TimesOut m.now c ↔ c.isExpired m.now m.timeout = true) ∧
      (m.cleanup.Spares c ↔ c.isExpired m.now m.timeout = false) := by
  obtain rfl := hm.arena.id_eq hc
  refine Reply.timesOut_iff (m.arena.staleIds m.now m.timeout) ?_ ?_ (stale_iff hm hc)
  · rw [cleanup_endEvents hm]
    exact filter_endEvents hm hc .timeout (Dict.nodup_keys _)
  · rw [cleanup_manager, ← hc]
    exact Arena.get?_without _ _ _

/-- What a cleanup holds on to. -/
theorem get?_cleanup (hm : m.Sound f) :
    m.cleanup.manager.arena.get? id = some c ↔
      m.arena.get? id = some c ∧ c.isExpired m.now m.timeout = false := by
  rw [cleanup_manager]
  show (m.arena.without _).get? id = some c ↔ _
  rw [Arena.get?_without]
  split
  · rename_i hstale
    refine iff_of_false (by simp) fun ⟨hc, hlive⟩ => ?_
    rw [(stale_iff hm hc).mp hstale] at hlive
    exact absurd hlive (by simp)
  · rename_i hstale
    refine ⟨fun hc => ⟨hc, ?_⟩, And.left⟩
    exact Bool.eq_false_iff.mpr fun hoverdue => hstale ((stale_iff hm hc).mpr hoverdue)

/-- The conversations that are overdue. -/
def overdue (m : Manager) : List Conversation :=
  m.arena.all.filter (·.isExpired m.now m.timeout)

theorem mem_overdue (hm : m.Sound f) :
    c ∈ m.overdue ↔ m.arena.get? c.id = some c ∧ c.isExpired m.now m.timeout = true := by
  rw [overdue, List.mem_filter, Arena.mem_all_held hm.arena]

theorem cleanup_events_perm (hm : m.Sound f) :
    m.cleanup.events.Perm (m.overdue.map fun c => c.endEvent .timeout m.now) :=
  hm.arena.finishAll_perm .timeout m.now (Dict.nodup_keys _) fun _ => Arena.mem_staleIds hm.arena

theorem cleanup_result (hm : m.Sound f) : m.cleanup.result = m.overdue.length :=
  hm.arena.finishAll_length .timeout m.now (Dict.nodup_keys _) fun _ =>
    Arena.mem_staleIds hm.arena

theorem cleanup_quiet (h : m.arena.staleIds m.now m.timeout = []) :
    m.cleanup = { manager := m, result := 0 } := by
  rw [cleanup, Arena.sweep_eq, h]
  rfl

theorem cleanup_cleanup (hm : m.Sound f) :
    m.cleanup.manager.cleanup = { manager := m.cleanup.manager, result := 0 } := by
  have sound := hm.steps (cleanup_steps hm)
  refine cleanup_quiet (List.eq_nil_iff_forall_not_mem.mpr fun id hid => ?_)
  obtain ⟨c, hc, hoverdue⟩ := (Arena.mem_staleIds sound.arena).mp hid
  obtain ⟨-, hlive⟩ := (get?_cleanup hm).mp hc
  rw [cleanup_manager] at hoverdue
  exact absurd (hlive.symm.trans hoverdue) (by simp)

/-! ### Lines of input and starts -/

theorem advance_timeout_iff (hm : m.Sound f) (hc : m.arena.get? id = some c)
    {ps : Participants} (howner : ps.player.id = c.playerId) (input : String) :
    (m.advance ps id input).result.response = .error (.timeout id) ↔
      c.isExpired m.now m.timeout = true := by
  have advanced := advance_cases hm ps id input
  generalize m.advance ps id input = reply at advanced
  have same {c' : Conversation} (hc' : m.arena.get? id = some c') : c' = c :=
    Option.some.inj (hc'.symm.trans hc)
  cases advanced with
  | absent habsent => exact absurd (habsent.symm.trans hc) (by simp)
  | stranger hc' hother =>
    rw [same hc'] at hother
    exact absurd howner.symm hother
  | lapsed hc' _ hoverdue =>
    rw [same hc'] at hoverdue
    exact iff_of_true rfl hoverdue
  | treeless hc' _ hlive | nodeless hc' _ hlive | turned hc' _ hlive =>
    rw [same hc'] at hlive
    exact iff_of_false (by simp [refuse, settle, Provider.turned]) (by simp [hlive])

/-- What comes of a start after the idle conversations have ended touches no conversation
that is held then. -/
theorem Started.spares {ps : Participants} {providerId : Option String}
    {reply : Reply Answer} (h : m.Started f ps providerId reply) (hnew : m.forum.ids.next ≠ id) :
    reply.events.filter (Event.isEndOf id) = [] ∧
      reply.manager.arena.get? id = m.arena.get? id := by
  cases h with
  | overQuota | unresolved | treeless => exact ⟨rfl, rfl⟩
  | @opened p tree play r _ _ _ hplayed =>
    have hid : play.conversation.id = m.forum.ids.next := hplayed.continues.id
    have started : (p.startEvent m.forum ps tree).isEndOf id = false := by
      simp [Event.isEndOf, Provider.startEvent, Event.ofConversation, Occurrence.isEnd]
    constructor
    · show (p.startEvent m.forum ps tree :: play.events).filter (Event.isEndOf id) = []
      rw [List.filter_cons_of_neg (by simp [started])]
      exact hplayed.filter_isEndOf hnew
    · show (if play.conversation.isActive then m.arena.insert play.conversation
        else m.arena).get? id = _
      split
      · rw [Arena.get?_insert, if_neg (hid ▸ hnew)]
      · rfl

theorem start_timesOut (hm : m.Sound f) (hc : m.arena.get? id = some c) {ps : Participants}
    (howner : ps.player.id = c.playerId) (providerId : Option String)
    (hnew : m.arena.contains m.forum.ids.next = false) :
    ((m.start ps providerId).TimesOut m.now c ↔ c.isExpired m.now m.timeout = true) ∧
      ((m.start ps providerId).Spares c ↔ c.isExpired m.now m.timeout = false) := by
  obtain rfl := hm.arena.id_eq hc
  have hne : (m.afterExpiry ps.player.id).forum.ids.next ≠ c.id := by
    intro heq
    rw [show m.forum.ids.next = c.id from heq, Arena.contains_of_get? hc] at hnew
    exact absurd hnew (by simp)
  obtain ⟨reply, hstarted, hstart⟩ := start_cases hm ps providerId
  obtain ⟨hsilent, hsame⟩ := hstarted.spares hne
  obtain ⟨entry, -⟩ := hm.arena.fits hc
  have idle := mem_idle_ids hm entry howner.symm
  rw [hstart]
  refine Reply.timesOut_iff ((m.idle ps.player.id).map Conversation.id) ?_ ?_ idle
  · show ((m.expirePlayer ps.player.id).2 ++ reply.events).filter _ = _
    rw [List.filter_append, hsilent, List.append_nil, expirePlayer_endEvents hm]
    exact filter_endEvents hm hc .timeout (nodup_idle hm ps.player.id)
  · rw [← hc]
    exact hsame.trans (Arena.get?_without _ _ _)

/-! ### Restarts -/

/-- The manager is about to take up a saved copy of a conversation. -/
structure Reloads (m : Manager) (c : Conversation) : Prop where
  saved : ∃ store saved, m.store = some store ∧ store.loadActive = .ok saved ∧
    ∀ c', c' ∈ saved ∧ c'.id = c.id ↔ c' = c
  unheld : m.arena.contains c.id = false
  registered : m.providers.contains c.providerId = true

/-- Holding one conversation after another, only one of them under the id of `c`. -/
theorem get?_foldl_insert {cs : List Conversation} (hone : ∀ c' ∈ cs, c'.id = c.id → c' = c)
    (a : Arena) :
    (cs.foldl Arena.insert a).get? c.id = if c ∈ cs then some c else a.get? c.id := by
  -- A conversation that comes later would take the place of an earlier one.
  induction cs generalizing a with
  | nil => rfl
  | cons head rest ih =>
    rw [List.foldl_cons, ih (fun c' hc' => hone c' (List.mem_cons_of_mem _ hc')),
      Arena.get?_insert]
    by_cases hhead : head.id = c.id
    · obtain rfl := hone head List.mem_cons_self hhead
      simp
    · have hne : c ≠ head := fun h => hhead (h ▸ rfl)
      rw [if_neg hhead]
      simp [hne]

theorem restore_get? (hc : c.isActive = true) (h : m.Reloads c) :
    ∃ m', m.restore = .ok m' ∧
      m'.arena.get? c.id = if c.isExpired m.now m.timeout then none else some c := by
  obtain ⟨⟨store, saved, hstore, hload, hcopy⟩, hunheld, hregistered⟩ := h
  obtain ⟨hmem, -⟩ := (hcopy c).mpr rfl
  have one : ∀ c' ∈ saved.filter m.isRestorable, c'.id = c.id → c' = c := fun c' hc' hid =>
    (hcopy c').mp ⟨(List.mem_filter.mp hc').1, hid⟩
  have restorable : m.isRestorable c = !c.isExpired m.now m.timeout := by
    rw [isRestorable, hc, hregistered, Bool.true_and, Bool.and_true]
  refine ⟨_, by rw [restore, hstore]; simp only [hload]; rfl, ?_⟩
  show ((saved.filter m.isRestorable).foldl Arena.insert m.arena).get? c.id = _
  rw [get?_foldl_insert one, Arena.get?_eq_none_iff.mpr hunheld]
  cases hlive : c.isExpired m.now m.timeout <;> simp [hmem, restorable, hlive]

/-! ### Every way to time out -/

theorem isExpired_iff {now : Instant} {timeout : Int} :
    c.isExpired now timeout = true ↔ timeout * 1000000 < now.since c.lastActivity := by
  rw [Conversation.isExpired, decide_eq_true_iff]

/-- Whatever looks at a conversation times it out exactly if it has been idle for more than
the timeout: a cleanup, a line of input of its player, a start of its player that succeeds
or fails, and a restart that finds it saved.  A cleanup ends these conversations and no
others, counts and announces each once, and has nothing left to do when it comes again. -/
theorem expiry (hm : m.Reachable) (now : Instant) :
    let m := m.atTime now
    let isOverdue (c : Conversation) : Prop := m.timeout * 1000000 < now.since c.lastActivity
    (∀ id c, m.arena.get? id = some c →
      ((m.cleanup.TimesOut now c ↔ isOverdue c) ∧ (m.cleanup.Spares c ↔ ¬ isOverdue c)) ∧
      (∀ ps input, ps.player.id = c.playerId →
        ((m.advance ps id input).result.response = .error (.timeout id) ↔ isOverdue c)) ∧
      (∀ ps providerId, ps.player.id = c.playerId → m.arena.contains m.forum.ids.next = false →
        ((m.start ps providerId).TimesOut now c ↔ isOverdue c) ∧
        ((m.start ps providerId).Spares c ↔ ¬ isOverdue c)) ∧
      ∀ m' : Manager, m'.now = now → m'.timeout = m.timeout → m'.Reloads c →
        ∃ m'', m'.restore = .ok m'' ∧ (m''.arena.get? id = none ↔ isOverdue c) ∧
          (m''.arena.get? id = some c ↔ ¬ isOverdue c)) ∧
    m.cleanup.result = m.overdue.length ∧
    m.cleanup.events.Perm (m.overdue.map fun c =>
      Event.ofConversation c now (.conversationEnded .timeout)) ∧
    (∀ c, c ∈ m.overdue ↔ m.arena.get? c.id = some c ∧ isOverdue c) ∧
    (∀ id c, m.cleanup.manager.arena.get? id = some c ↔
      m.arena.get? id = some c ∧ ¬ isOverdue c) ∧
    m.cleanup.manager = m.withArena m.cleanup.manager.arena ∧
    m.cleanup.manager.cleanup = { manager := m.cleanup.manager, result := 0 } := by
  intro m isOverdue
  have sound : m.Sound fun _ => () := hm.sound.steps (atTime_steps _ now)
  have expired (c : Conversation) : c.isExpired m.now m.timeout = true ↔ isOverdue c :=
    isExpired_iff
  have live (c : Conversation) : c.isExpired m.now m.timeout = false ↔ ¬ isOverdue c := by
    rw [← expired, Bool.not_eq_true]
  refine ⟨fun id c hc => ⟨?_, ?_, ?_, ?_⟩, cleanup_result sound, cleanup_events_perm sound,
    fun c => ?_, fun id c => ?_, ?_, cleanup_cleanup sound⟩
  · rw [← live, ← expired]
    exact cleanup_timesOut sound hc
  · intro ps input howner
    rw [← expired]
    exact advance_timeout_iff sound hc howner input
  · intro ps providerId howner hnew
    rw [← live, ← expired]
    exact start_timesOut sound hc howner providerId hnew
  · intro m' hnow htimeout hreloads
    obtain ⟨m'', hrestore, hget⟩ := restore_get? (sound.arena.isActive hc) hreloads
    have same : c.isExpired m'.now m'.timeout = c.isExpired m.now m.timeout := by
      rw [hnow, htimeout]
      rfl
    rw [sound.arena.id_eq hc, same] at hget
    refine ⟨m'', hrestore, ?_⟩
    rw [hget, ← live, ← expired]
    cases c.isExpired m.now m.timeout <;> simp
  · rw [← expired]
    exact mem_overdue sound
  · rw [← live]
    exact get?_cleanup sound
  · rw [cleanup_manager]
    rfl

/-- Half an hour is not too long for the restored conversation, but a millisecond more is. -/
theorem expiry_reopened :
    let late := Inn.reopened.atTime lateEvening
    let halfPast := Inn.reopened.atTime (Instant.epoch.addMillis 1800000)
    late.cleanup.TimesOut lateEvening Inn.evening ∧
    (late.advance Inn.guest "evening" "").result.response = .error (.timeout "evening") ∧
    (late.start Inn.guest none).TimesOut lateEvening Inn.evening ∧
    (∃ m, (late.withArena {}).restore = .ok m ∧ m.arena.get? "evening" = none) ∧
    late.cleanup.manager.cleanup = { manager := late.cleanup.manager, result := 0 } ∧
    halfPast.cleanup.Spares Inn.evening ∧
    (halfPast.start Inn.guest none).Spares Inn.evening := by
  intro late halfPast
  obtain ⟨hlate, -, -, -, -, -, hagain⟩ := expiry Inn.reopened_reachable lateEvening
  obtain ⟨hhalf, -⟩ := expiry Inn.reopened_reachable (Instant.epoch.addMillis 1800000)
  have held : Inn.reopened.arena.get? "evening" = some Inn.evening := by decide
  have new : Inn.reopened.arena.contains Inn.reopened.forum.ids.next = false := by decide
  obtain ⟨⟨hcleanup, -⟩, hadvance, hstart, hrestore⟩ := hlate "evening" Inn.evening held
  obtain ⟨⟨-, hspares⟩, -, hstarts, -⟩ := hhalf "evening" Inn.evening held
  have overdue : Inn.reopened.timeout * 1000000 <
      lateEvening.since Inn.evening.lastActivity := by decide +kernel
  have live : ¬ Inn.reopened.timeout * 1000000 <
      (Instant.epoch.addMillis 1800000).since Inn.evening.lastActivity := by decide +kernel
  have reloads : (late.withArena {}).Reloads Inn.evening := by
    refine ⟨⟨.memory [Inn.evening], [Inn.evening], rfl, rfl, fun c => ?_⟩, rfl, by decide⟩
    rw [List.mem_singleton]
    exact ⟨And.left, fun h => ⟨h, h ▸ rfl⟩⟩
  obtain ⟨m, hm, hgone, -⟩ := hrestore (late.withArena {}) rfl rfl reloads
  exact ⟨hcleanup.mpr overdue, (hadvance Inn.guest "" rfl).mpr overdue,
    ((hstart Inn.guest none rfl new).1).mpr overdue, ⟨m, hm, hgone.mpr overdue⟩, hagain,
    hspares.mpr live, ((hstarts Inn.guest none rfl new).2).mpr live⟩

end Manager

end Parley
