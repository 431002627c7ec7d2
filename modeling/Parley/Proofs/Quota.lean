/-
The quota of conversations of a player.

* `Manager.Step.count_le` — a step raises the count of a player up to the limit at
  most;
* `Manager.count_afterExpiry` — what a start counts are the conversations that have
  not gone idle;
* `Manager.Started.quotaExceeded_iff` — no other failure looks like an exhausted
  quota;
* `Manager.quota` — so for every call in every state.
-/
import Parley.Proofs.Manager.Run

namespace Parley.Manager

variable {α : Type} {f : Context → α} {m m' : Manager}

theorem length_conversationsOf (m : Manager) (playerId : String) :
    (m.conversationsOf playerId).length = m.arena.countOfPlayer playerId :=
  m.arena.length_ofPlayer playerId

/-! ### What the calls do to the count -/

theorem Step.count_le {events : List Event} (h : Step f m m' events) (playerId : String) :
    m'.arena.countOfPlayer playerId ≤
      max m.config.maxConversationsPerPlayer (m.arena.countOfPlayer playerId) := by
  cases h with
  | aside now _ _ hforum =>
    rw [show m'.arena = m.arena by rw [Manager.arena, hforum]; rfl]
    omega
  | registered | edited | dropped => exact Nat.le_max_right _ _
  | @ended _ ids _ =>
    have := m.arena.countOfPlayer_without_le ids playerId
    show (m.arena.without ids).countOfPlayer playerId ≤ _
    omega
  | @opened p ps tree play r hquota _ _ hplayed =>
    have hplayer : play.conversation.playerId = ps.player.id := hplayed.continues.playerId
    show (if play.conversation.isActive then m.arena.insert play.conversation
      else m.arena).countOfPlayer playerId ≤ _
    split
    · have inserted := m.arena.countOfPlayer_insert_le play.conversation playerId
      rw [hplayer] at inserted
      by_cases hp : ps.player.id = playerId
      · -- The new conversation is one that the limit has room for.
        subst hp
        rw [beq_self_eq_true, Bool.toNat_true] at inserted
        omega
      · rw [beq_false_of_ne hp, Bool.toNat_false] at inserted
        omega
    · omega
  | @turned _ _ _ _ play _ _ _ _ _ =>
    show (m.arena.settle play.conversation).countOfPlayer playerId ≤ _
    rw [Arena.settle]
    split
    · rw [Arena.countOfPlayer_update]
      omega
    · have := m.arena.countOfPlayer_remove_le play.conversation.id playerId
      omega
  | switched =>
    show (m.arena.update _ _).countOfPlayer playerId ≤ _
    rw [Arena.countOfPlayer_update]
    omega

theorem Steps.count_le {events : List Event} (h : Steps f m m' events) (playerId : String) :
    m'.arena.countOfPlayer playerId ≤
      max m.config.maxConversationsPerPlayer (m.arena.countOfPlayer playerId) := by
  induction h with
  | refl => exact Nat.le_max_right _ _
  | head hstep _ ih =>
    have first := hstep.count_le playerId
    rw [hstep.config] at ih
    omega

/-! ### What a start counts -/

theorem mem_idle_ids (hm : m.Sound f) {playerId : String} {e : Arena.Entry} {id : String}
    (he : m.arena.entries.get? id = some e) (howner : e.owner = playerId) :
    id ∈ (m.idle playerId).map Conversation.id ↔
      e.conversation.isExpired m.now m.timeout = true := by
  have hc : m.arena.get? id = some e.conversation := Arena.get?_eq_some_iff.mpr ⟨e, he, rfl⟩
  have fits := hm.arena id e he
  rw [List.mem_map]
  constructor
  · rintro ⟨c, hmem, rfl⟩
    obtain ⟨hc', -, hidle⟩ := (mem_idle hm).mp hmem
    rw [hc] at hc'
    exact Option.some.inj hc' ▸ hidle
  · intro hidle
    refine ⟨e.conversation, (mem_idle hm).mpr ⟨?_, ?_, hidle⟩, fits.id_eq⟩
    · exact fits.id_eq.symm ▸ hc
    · exact fits.owner_eq.symm.trans howner

/-- Once the idle conversations have ended, those that are not idle remain. -/
theorem count_afterExpiry (hm : m.Sound f) (playerId : String) :
    (m.afterExpiry playerId).arena.countOfPlayer playerId =
      (m.conversationsOf playerId).countP fun c => !c.isExpired m.now m.timeout := by
  have counted := m.arena.countOfPlayer_without ((m.idle playerId).map Conversation.id) playerId
  refine counted.trans (.trans ?_ (m.arena.countP_ofPlayer playerId _).symm)
  -- Of the entries of the player, those listed as idle are the ones that have expired.
  refine List.countP_congr fun e he => ?_
  have hget := Dict.get?_eq_some_iff.mpr he
  by_cases howner : e.2.owner = playerId
  · have hidle := mem_idle_ids hm hget howner
    rw [← List.contains_iff_mem] at hidle
    rw [Bool.eq_iff_iff.mpr hidle]
  · rw [beq_false_of_ne howner, Bool.and_false, Bool.and_false]

theorem resolve_ne_quotaExceeded {npcId : String} {providerId : Option String}
    {e : DialogueError} (h : m.resolve npcId providerId = .error e) (playerId : String)
    (limit : Nat) : e ≠ .quotaExceeded playerId limit := by
  rw [resolve.eq_def] at h
  split at h
  · split at h
    · exact absurd h (by simp)
    · obtain rfl := Except.error.inj h
      simp
  · simp only at h
    split at h
    · exact absurd h (by simp)
    · obtain rfl := Except.error.inj h
      simp

theorem treeOf_ne_quotaExceeded {p : Provider} {npcId : String} {e : DialogueError}
    (h : p.treeOf npcId = .error e) (playerId : String) (limit : Nat) :
    e ≠ .quotaExceeded playerId limit := by
  rw [Provider.treeOf] at h
  split at h
  · obtain rfl := Except.error.inj h
    simp
  · split at h
    · obtain rfl := Except.error.inj h
      simp
    · exact absurd h (by simp)

theorem Started.quotaExceeded_iff {ps : Participants} {providerId : Option String}
    {reply : Reply Answer} (h : m.Started f ps providerId reply) (playerId : String)
    (limit : Nat) :
    reply.result.response = .error (.quotaExceeded playerId limit) ↔
      playerId = ps.player.id ∧ limit = m.config.maxConversationsPerPlayer ∧
        m.config.maxConversationsPerPlayer ≤ m.arena.countOfPlayer ps.player.id := by
  cases h with
  | overQuota hquota =>
    simp only [refuse, Except.error.injEq, DialogueError.quotaExceeded.injEq]
    constructor
    · rintro ⟨rfl, rfl⟩
      exact ⟨rfl, rfl, hquota⟩
    · rintro ⟨rfl, rfl, -⟩
      exact ⟨rfl, rfl⟩
  | unresolved hquota hresolve =>
    have hne := resolve_ne_quotaExceeded hresolve playerId limit
    refine ⟨fun heq => absurd (Except.error.inj heq) hne, fun h => ?_⟩
    omega
  | treeless hquota _ htree =>
    have hne := treeOf_ne_quotaExceeded htree playerId limit
    refine ⟨fun heq => absurd (Except.error.inj heq) hne, fun h => ?_⟩
    omega
  | opened hquota =>
    refine ⟨fun heq => absurd heq (by simp [settle, Provider.opened]), fun h => ?_⟩
    omega

/-- No call but a launch takes a player beyond the limit, or further beyond it; and a
start is refused for the quota exactly if the limit is reached without counting the
conversations that have gone idle. -/
theorem quota (hm : m.Reachable) :
    (∀ c : Call, c.isLaunch = false → (∀ p ∈ c.providers, p.Authored) → ∀ playerId,
      ((m.perform c).1.conversationsOf playerId).length ≤
        max m.config.maxConversationsPerPlayer (m.conversationsOf playerId).length) ∧
    ∀ ps providerId playerId limit,
      (m.start ps providerId).result.response = .error (.quotaExceeded playerId limit) ↔
        playerId = ps.player.id ∧ limit = m.config.maxConversationsPerPlayer ∧
          m.config.maxConversationsPerPlayer ≤
            (m.conversationsOf ps.player.id).countP fun c => !c.isExpired m.now m.timeout := by
  have sound := hm.sound
  refine ⟨fun c hlaunch hc playerId => ?_, fun ps providerId playerId limit => ?_⟩
  · have steps := perform_steps sound hlaunch fun p hp => ⟨hc p hp, steady_unit _⟩
    rw [length_conversationsOf, length_conversationsOf]
    exact steps.count_le playerId
  · obtain ⟨reply, hstarted, hstart⟩ := start_cases sound ps providerId
    rw [hstart, ← count_afterExpiry sound]
    exact hstarted.quotaExceeded_iff playerId limit

/-- The guest of the inn may have two more conversations. -/
theorem quota_reopened :
    ((Inn.reopened.perform (.start Inn.guest none)).1.conversationsOf "guest").length ≤ 3 ∧
    ∀ limit, (Inn.reopened.start Inn.guest none).result.response ≠
      .error (.quotaExceeded "guest" limit) := by
  obtain ⟨hcount, hrefused⟩ := quota Inn.reopened_reachable
  have one : (Inn.reopened.conversationsOf "guest").length = 1 := by
    rw [length_conversationsOf]
    decide
  have three : Inn.reopened.config.maxConversationsPerPlayer = 3 := rfl
  refine ⟨?_, fun limit heq => ?_⟩
  · have := hcount (.start Inn.guest none) rfl (by simp [Call.providers]) "guest"
    omega
  · obtain ⟨-, -, hreached⟩ := (hrefused _ _ _ _).mp heq
    have := (Inn.reopened.conversationsOf "guest").countP_le_length
      (p := fun c => !c.isExpired Inn.reopened.now Inn.reopened.timeout)
    have player : Inn.guest.player.id = "guest" := rfl
    rw [player] at hreached
    omega

end Parley.Manager
