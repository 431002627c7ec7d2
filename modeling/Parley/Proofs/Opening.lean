/-
When a conversation can begin, and what a start leaves if it cannot.

The start is announced before its first node is entered, and entering can fail if the node
is not there.  Since only valid trees are held it never does, so a start fails before it
announces anything of its own:

* `Manager.Declines` — the first check that fails, and its error;
* `Manager.start_error_iff` — a start fails exactly with that error;
* `Manager.start_refused` — and then nothing is left of it but the ends of the player's
  idle conversations;
* `Manager.opening` — so in every state.

Design notes: idle conversations end before anything is checked, so they end in a start
that is refused as well.
-/
import Parley.Proofs.Lifecycle
import Parley.Proofs.Manager.Turns
import Parley.Proofs.Quota

namespace Parley.Manager

variable {α : Type} {f : Context → α} {m : Manager} {ps : Participants}
  {providerId : Option String} {e : DialogueError}

/-- How many conversations a player has that have not gone idle. -/
def liveCount (m : Manager) (playerId : String) : Nat :=
  (m.conversationsOf playerId).countP fun c => !c.isExpired m.now m.timeout

/-- The checks of a start in their order, each with the error if those before it pass. -/
inductive Declines (m : Manager) (ps : Participants) (providerId : Option String) :
    DialogueError → Prop where
  | full (hroom : m.config.maxConversationsPerPlayer ≤ m.liveCount ps.player.id) :
      Declines m ps providerId
        (.quotaExceeded ps.player.id m.config.maxConversationsPerPlayer)
  | unknown {named : String}
      (hroom : m.liveCount ps.player.id < m.config.maxConversationsPerPlayer)
      (hnamed : providerId = some named) (hp : m.providers.get? named = none) :
      Declines m ps providerId (.providerNotFound named)
  | unserved (hroom : m.liveCount ps.player.id < m.config.maxConversationsPerPlayer)
      (hnamed : providerId = none) (hdefault : m.default? = none)
      (hnone : ∀ registered p, m.providers.get? registered = some p →
        p.canHandle ps.npc.id = false) :
      Declines m ps providerId (.noProviderAvailable ps.npc.id)
  | unmapped {p : Provider}
      (hroom : m.liveCount ps.player.id < m.config.maxConversationsPerPlayer)
      (hresolve : m.resolve ps.npc.id providerId = .ok p)
      (htree : p.npcTrees.get? ps.npc.id = none) :
      Declines m ps providerId (.noTreeMapped ps.npc.id)
  | treeless {p : Provider} {treeId : String}
      (hroom : m.liveCount ps.player.id < m.config.maxConversationsPerPlayer)
      (hresolve : m.resolve ps.npc.id providerId = .ok p)
      (htree : p.npcTrees.get? ps.npc.id = some treeId) (hgone : p.trees.get? treeId = none) :
      Declines m ps providerId (.treeNotFound treeId)

/-! ### The checks -/

/-- A provider is not found if the one that is named is unknown, or if none is named, there
is no default and none can run the NPC. -/
theorem resolve_eq_error {npcId : String} (h : m.resolve npcId providerId = .error e) :
    (∃ named, providerId = some named ∧ m.providers.get? named = none ∧
      e = .providerNotFound named) ∨
    (providerId = none ∧ m.default? = none ∧
      (∀ registered p, m.providers.get? registered = some p → p.canHandle npcId = false) ∧
      e = .noProviderAvailable npcId) := by
  rw [resolve.eq_def] at h
  split at h
  · rename_i named
    split at h
    · exact absurd h (by simp)
    · obtain rfl := Except.error.inj h
      exact .inl ⟨named, rfl, by assumption, rfl⟩
  · simp only at h
    split at h
    · exact absurd h (by simp)
    · rename_i hfound
      obtain rfl := Except.error.inj h
      rw [Option.orElse_eq_orElse, Option.orElse_eq_or, Option.or_eq_none_iff,
        List.find?_eq_none] at hfound
      obtain ⟨hnone, hdefault⟩ := hfound
      refine .inr ⟨rfl, hdefault, fun registered p hp => ?_, rfl⟩
      have hmem : p ∈ m.default?.toList ++ m.providers.values :=
        List.mem_append_right _ (Dict.mem_values.mpr ⟨registered, hp⟩)
      exact Bool.eq_false_iff.mpr (hnone p hmem)

theorem treeOf_eq_error {p : Provider} {npcId : String} (h : p.treeOf npcId = .error e) :
    (p.npcTrees.get? npcId = none ∧ e = .noTreeMapped npcId) ∨
    ∃ treeId, p.npcTrees.get? npcId = some treeId ∧ p.trees.get? treeId = none ∧
      e = .treeNotFound treeId := by
  rw [Provider.treeOf] at h
  split at h
  · obtain rfl := Except.error.inj h
    exact .inl ⟨by assumption, rfl⟩
  · split at h
    · obtain rfl := Except.error.inj h
      exact .inr ⟨_, by assumption, by assumption, rfl⟩
    · exact absurd h (by simp)

theorem resolve_unknown {npcId named : String} (hp : m.providers.get? named = none) :
    m.resolve npcId (some named) = .error (.providerNotFound named) := by
  rw [resolve]
  rw [hp]

theorem resolve_unserved {npcId : String} (hdefault : m.default? = none)
    (hnone : ∀ registered p, m.providers.get? registered = some p →
      p.canHandle npcId = false) :
    m.resolve npcId none = .error (.noProviderAvailable npcId) := by
  have none_able : m.providers.values.find? (·.canHandle npcId) = none := by
    rw [List.find?_eq_none]
    intro p hmem
    obtain ⟨registered, hp⟩ := Dict.mem_values.mp hmem
    rw [hnone registered p hp]
    simp
  rw [resolve]
  simp [hdefault, none_able]

/-! ### What a start that is refused leaves -/

/-- What a refused start comes to: the idle conversations have ended, and no more. -/
def refusedStart (m : Manager) (ps : Participants) (e : DialogueError) : Reply Answer :=
  { (m.afterExpiry ps.player.id).refuse ps e with events := (m.expirePlayer ps.player.id).2 }

theorem start_full
    (h : m.config.maxConversationsPerPlayer ≤
      (m.afterExpiry ps.player.id).arena.countOfPlayer ps.player.id) :
    m.start ps providerId =
      m.refusedStart ps (.quotaExceeded ps.player.id m.config.maxConversationsPerPlayer) := by
  rw [start]
  simp only [expirePlayer_fst]
  rw [if_pos (show (m.afterExpiry ps.player.id).config.maxConversationsPerPlayer ≤ _ from h)]
  simp [refusedStart, refuse]
  rfl

theorem start_unresolved
    (hroom : (m.afterExpiry ps.player.id).arena.countOfPlayer ps.player.id <
      m.config.maxConversationsPerPlayer)
    (hresolve : m.resolve ps.npc.id providerId = .error e) :
    m.start ps providerId = m.refusedStart ps e := by
  have room : ¬ (m.afterExpiry ps.player.id).config.maxConversationsPerPlayer ≤
      (m.afterExpiry ps.player.id).arena.countOfPlayer ps.player.id := Nat.not_le_of_lt hroom
  have resolved : (m.afterExpiry ps.player.id).resolve ps.npc.id providerId = .error e := hresolve
  rw [start]
  simp only [expirePlayer_fst]
  rw [if_neg room, resolved]
  simp [refusedStart, refuse]

theorem start_treeless (hm : m.Sound f) {p : Provider}
    (hroom : (m.afterExpiry ps.player.id).arena.countOfPlayer ps.player.id <
      m.config.maxConversationsPerPlayer)
    (hresolve : m.resolve ps.npc.id providerId = .ok p)
    (htree : p.treeOf ps.npc.id = .error e) :
    m.start ps providerId = m.refusedStart ps e := by
  obtain ⟨registered, hp⟩ := resolve_mem hresolve
  have refused : p.start (m.afterExpiry ps.player.id).forum ps =
      p.refuse (m.afterExpiry ps.player.id).forum ps e := by
    rw [Provider.start]
    rw [htree]
  rw [start_resolved hroom hresolve, refused, settle_refuse (hm.afterExpiry ps.player.id) hp]
  simp [refusedStart, refuse]

/-- A start that a check stops leaves nothing else. -/
theorem Declines.start_eq (hm : m.Sound f) (h : m.Declines ps providerId e) :
    m.start ps providerId = m.refusedStart ps e := by
  have counted : (m.afterExpiry ps.player.id).arena.countOfPlayer ps.player.id =
      m.liveCount ps.player.id := count_afterExpiry hm ps.player.id
  cases h with
  | full hroom => exact start_full (counted ▸ hroom)
  | unknown hroom hnamed hp =>
    subst hnamed
    exact start_unresolved (counted ▸ hroom) (resolve_unknown hp)
  | unserved hroom hnamed hdefault hnone =>
    subst hnamed
    exact start_unresolved (counted ▸ hroom) (resolve_unserved hdefault hnone)
  | unmapped hroom hresolve htree =>
    refine start_treeless hm (counted ▸ hroom) hresolve ?_
    rw [Provider.treeOf]
    rw [htree]
  | treeless hroom hresolve htree hgone =>
    refine start_treeless hm (counted ▸ hroom) hresolve ?_
    rw [Provider.treeOf]
    simp only [htree, hgone]

/-- A start that fails has been stopped by a check. -/
theorem declines_of_error (hm : m.Sound f)
    (h : (m.start ps providerId).result.response = .error e) : m.Declines ps providerId e := by
  have counted : (m.afterExpiry ps.player.id).arena.countOfPlayer ps.player.id =
      m.liveCount ps.player.id := count_afterExpiry hm ps.player.id
  obtain ⟨reply, hstarted, hstart⟩ := start_cases hm ps providerId
  have he : reply.result.response = .error e := by
    rw [hstart] at h
    exact h
  cases hstarted with
  | overQuota hquota =>
    obtain rfl := Except.error.inj he
    exact .full (counted ▸ hquota)
  | unresolved hquota hresolve =>
    obtain rfl := Except.error.inj he
    rcases resolve_eq_error (m := m) hresolve with
      ⟨named, hnamed, hp, rfl⟩ | ⟨hnamed, hdefault, hnone, rfl⟩
    · exact .unknown (counted ▸ hquota) hnamed hp
    · exact .unserved (counted ▸ hquota) hnamed hdefault hnone
  | treeless hquota hresolve htree =>
    obtain rfl := Except.error.inj he
    rcases treeOf_eq_error htree with ⟨hunmapped, rfl⟩ | ⟨treeId, hmapped, hgone, rfl⟩
    · exact .unmapped (counted ▸ hquota) hresolve hunmapped
    · exact .treeless (counted ▸ hquota) hresolve hmapped hgone
  | opened => exact absurd he (by simp [settle, Provider.opened])

theorem start_error_iff (hm : m.Sound f) :
    (m.start ps providerId).result.response = .error e ↔ m.Declines ps providerId e := by
  refine ⟨declines_of_error hm, fun h => ?_⟩
  rw [h.start_eq hm]
  rfl

theorem start_refused (hm : m.Sound f)
    (h : (m.start ps providerId).result.response = .error e) :
    m.start ps providerId = m.refusedStart ps e :=
  (declines_of_error hm h).start_eq hm

/-- The arena after the idle conversations of a player have ended. -/
theorem entries_afterExpiry (hm : m.Sound f) (playerId id : String) :
    (m.afterExpiry playerId).arena.entries.get? id =
      (m.arena.entries.get? id).filter fun e =>
        !(e.owner == playerId && e.conversation.isExpired m.now m.timeout) := by
  show (m.arena.entries.filter _).get? id = _
  rw [Dict.get?_filter]
  cases he : m.arena.entries.get? id with
  | none => rfl
  | some e =>
    by_cases howner : e.owner = playerId
    · have hidle := mem_idle_ids hm he howner
      rw [← List.contains_iff_mem] at hidle
      rw [Option.filter_some, Option.filter_some, Bool.eq_iff_iff.mpr hidle, howner,
        beq_self_eq_true, Bool.true_and]
    · have other : id ∉ (m.idle playerId).map Conversation.id := by
        intro hmem
        obtain ⟨c, hc, rfl⟩ := List.mem_map.mp hmem
        obtain ⟨hget, hplayer, -⟩ := (mem_idle hm).mp hc
        obtain ⟨e', he', rfl⟩ := Arena.get?_eq_some_iff.mp hget
        obtain rfl := Option.some.inj (he.symm.trans he')
        exact howner ((hm.arena _ e he).owner_eq.trans hplayer)
      rw [Option.filter_some, Option.filter_some, beq_false_of_ne howner, Bool.false_and]
      simp [other]

/-- A start that is announced is answered. -/
theorem start_announced (hm : m.Sound f) :
    (∃ e ∈ (m.start ps providerId).events, e.occurrence.isStart = true) ↔
      ∃ r, (m.start ps providerId).result.response = .ok r := by
  constructor
  · rintro ⟨announced, hmem, hstart⟩
    cases hresponse : (m.start ps providerId).result.response with
    | ok r => exact ⟨r, rfl⟩
    | error e =>
      rw [start_refused hm hresponse, refusedStart, expirePlayer_events hm] at hmem
      obtain ⟨c, -, rfl⟩ := List.mem_map.mp hmem
      exact absurd hstart (by simp [Conversation.endEvent, Event.ofConversation,
        Occurrence.isStart])
  · rintro ⟨r, hr⟩
    obtain ⟨p, tree, play, hopens⟩ := start_ok hm hr
    refine ⟨p.startEvent (m.afterExpiry ps.player.id).forum ps tree, ?_, rfl⟩
    rw [hopens.events_eq]
    exact List.mem_append_right _ List.mem_cons_self

/-- A start fails exactly if a check stops it, and then the participants are as they were,
no custom action was called, and nothing has happened but that the idle conversations of
the player have ended, each announced once.  A start that is announced never fails. -/
theorem opening (hm : m.Reachable) (ps : Participants) (providerId : Option String) :
    (∀ e, (m.start ps providerId).result.response = .error e ↔ m.Declines ps providerId e) ∧
    (∀ e, (m.start ps providerId).result.response = .error e →
      (m.start ps providerId).result.participants = ps ∧
      (m.start ps providerId).calls = [] ∧
      (m.start ps providerId).events =
        ((m.conversationsOf ps.player.id).filter (·.isExpired m.now m.timeout)).map (fun c =>
          Event.ofConversation c m.now (.conversationEnded .timeout)) ∧
      ∃ arena, (m.start ps providerId).manager = m.withArena arena ∧
        ∀ id, arena.entries.get? id = (m.arena.entries.get? id).filter fun e =>
          !(e.owner == ps.player.id && e.conversation.isExpired m.now m.timeout)) ∧
    ((∃ e ∈ (m.start ps providerId).events, e.occurrence.isStart = true) ↔
      ∃ r, (m.start ps providerId).result.response = .ok r) := by
  have sound := hm.sound
  refine ⟨fun e => start_error_iff sound, fun e he => ?_, start_announced sound⟩
  rw [start_refused sound he, refusedStart, expirePlayer_events sound]
  exact ⟨rfl, rfl, rfl, _, rfl, entries_afterExpiry sound ps.player.id⟩

/-- Half an hour after the inn has opened again. -/
def lateEvening : Instant := Instant.epoch.addMillis 1800001

/-- Late in the evening the guest asks for someone whom the keeper does not know: what is
left is that the restored conversation has timed out. -/
theorem opening_unmapped :
    let m := (Inn.reopened.perform (.setClock lateEvening)).1
    let ps : Participants := { Inn.guest with npc := { id := "cook" } }
    (m.start ps none).result.response = .error (.noTreeMapped "cook") ∧
    (m.start ps none).result.participants = ps ∧
    (m.start ps none).events =
      [Event.ofConversation Inn.evening lateEvening (.conversationEnded .timeout)] ∧
    ¬ ∃ e ∈ (m.start ps none).events, e.occurrence.isStart = true := by
  intro m ps
  have reachable : m.Reachable :=
    .call (.setClock lateEvening) (fun _ hp => absurd hp List.not_mem_nil) Inn.reopened_reachable
  obtain ⟨hiff, hrefused, hannounced⟩ := opening reachable ps none
  have declined : m.Declines ps none (.noTreeMapped "cook") :=
    .unmapped (p := Inn.keeper.prepare {} none) (by decide +kernel) rfl (by decide)
  have failed := (hiff _).mpr declined
  obtain ⟨hparticipants, -, hevents, -⟩ := hrefused _ failed
  have idle : (m.conversationsOf "guest").filter (·.isExpired m.now m.timeout) = [Inn.evening] := by
    decide +kernel
  refine ⟨failed, hparticipants, ?_, ?_⟩
  · rw [hevents, show ps.player.id = "guest" from rfl, idle]
    rfl
  · rw [hannounced, failed]
    simp

end Parley.Manager
