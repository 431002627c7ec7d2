/-
A provider that is unregistered takes its conversations with it.

Which conversations are its own is read from the conversations themselves, so those that were
handed to it go as well, and those that were handed on stay:

* `Manager.heldBy`, `Manager.mem_heldBy` — the conversations in the hands of a provider;
* `Manager.HandsOver.mem_heldBy` — handing a conversation over moves it from one to the other;
* `Manager.Dismisses` — what is gone with the provider, what was announced, and what is left;
* `Manager.dismissal` — so it is in every state, and a provider that is not there is refused.

Design notes: the register, the default and the arena are changed one after another, but none
of the three looks at what the others have become.
-/
import Parley.Proofs.Handover

namespace Parley

/-- What is left of the conversations when those of one provider are gone. -/
theorem Arena.get?_without_idsOfProvider {a : Arena} {providerId id : String} {e : Arena.Entry} :
    (a.without (a.idsOfProvider providerId)).entries.get? id = some e ↔
      a.entries.get? id = some e ∧ e.conversation.providerId ≠ providerId := by
  have kept : (a.without (a.idsOfProvider providerId)).entries.get? id = some e ↔
      a.entries.get? id = some e ∧ id ∉ a.idsOfProvider providerId := by
    rw [without, Dict.get?_filter, Option.filter_eq_some_iff]
    simp
  rw [kept]
  refine and_congr_right fun he => not_congr ?_
  have held : a.get? id = some e.conversation := get?_eq_some_iff.mpr ⟨e, he, rfl⟩
  rw [mem_idsOfProvider, held]
  simp

namespace Manager

variable {α : Type} {f : Context → α} {m : Manager} {providerId : String} {c : Conversation}

/-- The conversations that are in the hands of a provider now. -/
def heldBy (m : Manager) (providerId : String) : List Conversation :=
  m.arena.all.filter (·.providerId == providerId)

theorem mem_heldBy (hm : m.Sound f) :
    c ∈ m.heldBy providerId ↔ m.arena.get? c.id = some c ∧ c.providerId = providerId := by
  rw [heldBy, List.mem_filter, Arena.mem_all_held hm.arena, beq_iff_eq]

theorem nodup_heldBy (hm : m.Sound f) (providerId : String) :
    ((m.heldBy providerId).map Conversation.id).Nodup :=
  (List.filter_sublist.map _).nodup hm.arena.nodup_all_ids

theorem mem_idsOfProvider {id : String} :
    id ∈ m.arena.idsOfProvider providerId ↔
      ∃ c, m.arena.get? id = some c ∧ (c.providerId == providerId) = true := by
  simp only [beq_iff_eq]
  exact Arena.mem_idsOfProvider

/-- A conversation that was handed over is in the hands of its new provider, and in no others. -/
theorem HandsOver.mem_heldBy (hm : m.Sound f) {id : String} {p : Provider}
    (h : m.HandsOver id providerId c p) (other : String) :
    { c with providerId } ∈ (m.switchProvider id providerId).manager.heldBy other ↔
      providerId = other := by
  have sound := hm.steps (switchProvider_steps m id providerId)
  obtain rfl : c.id = id := hm.arena.id_eq h.held
  have held : (m.switchProvider c.id providerId).manager.arena.get? c.id =
      some { c with providerId } := by
    rw [h.switchProvider_eq]
    exact Arena.get?_update_self h.held _
  rw [Manager.mem_heldBy sound]
  exact and_iff_right held

/-! ### Unregistering -/

/-- What comes of unregistering a provider: its conversations end, each announced once, and
nothing else is changed but the register. -/
structure Dismisses (m : Manager) (providerId : String)
    (reply : Reply (Except DialogueError Nat)) : Prop where
  result : reply.result = .ok (m.heldBy providerId).length
  events : reply.events.Perm ((m.heldBy providerId).map fun c =>
    Event.ofConversation c m.now (.conversationEnded .providerUnregistered))
  calls : reply.calls = []
  /-- The others are held as they were. -/
  conversations : ∀ id e, reply.manager.arena.entries.get? id = some e ↔
    m.arena.entries.get? id = some e ∧ e.conversation.providerId ≠ providerId
  providers : ∀ other p, reply.manager.providers.get? other = some p ↔
    m.providers.get? other = some p ∧ providerId ≠ other
  stays : m.defaultProvider ≠ some providerId →
    reply.manager.defaultProvider = m.defaultProvider
  /-- The least of the ids that are left takes the place of a default that goes. -/
  succeeds : m.defaultProvider = some providerId → ∀ next,
    reply.manager.defaultProvider = some next ↔
      reply.manager.providers.contains next = true ∧
        ∀ other, reply.manager.providers.contains other = true → other = next ∨ next < other
  vacant : m.defaultProvider = some providerId →
    (reply.manager.defaultProvider = none ↔
      ∀ other, reply.manager.providers.contains other = false)
  frame : reply.manager =
    { m.withArena reply.manager.arena with
      providers := reply.manager.providers
      defaultProvider := reply.manager.defaultProvider }

theorem unregister_result (hm : m.Sound f) (h : m.providers.contains providerId = true) :
    (m.unregister providerId).result = .ok (m.heldBy providerId).length := by
  rw [unregister, if_pos h]
  exact congrArg Except.ok (hm.arena.finishAll_length .providerUnregistered m.now
    (Dict.nodup_keys _) fun _ => mem_idsOfProvider)

theorem unregister_events_perm (hm : m.Sound f) (h : m.providers.contains providerId = true) :
    (m.unregister providerId).events.Perm
      ((m.heldBy providerId).map fun c => c.endEvent .providerUnregistered m.now) := by
  rw [(unregister_held h).2]
  exact hm.arena.finishAll_perm .providerUnregistered m.now (Dict.nodup_keys _)
    fun _ => mem_idsOfProvider

theorem unregister_dismisses (hm : m.Sound f) (h : m.providers.contains providerId = true) :
    m.Dismisses providerId (m.unregister providerId) := by
  have calls : (m.unregister providerId).calls = [] := by
    rw [unregister, if_pos h]
  have result := unregister_result hm h
  have events := unregister_events_perm hm h
  have left := (unregister_held h).1
  -- What is left is one equation for the manager, and each part is read off it.
  generalize m.unregister providerId = reply at calls result events left
  obtain ⟨m', _, _, _⟩ := reply
  subst left
  refine ⟨result, events, calls, fun id e => Arena.get?_without_idsOfProvider,
    fun other p => ?_, fun hother => if_neg hother, fun hdefault next => ?_,
    fun hdefault => ?_, rfl⟩
  · show (m.providers.erase providerId).get? other = some p ↔ _
    rw [Dict.get?_erase]
    by_cases heq : providerId = other <;> simp [heq]
  · show (if m.defaultProvider = some providerId then _ else _) = some next ↔ _
    rw [if_pos hdefault]
    exact Dict.head?_keys
  · show (if m.defaultProvider = some providerId then _ else _) = none ↔ _
    rw [if_pos hdefault]
    exact Dict.head?_keys_eq_none

/-- Unregistering a provider ends the conversations that are in its hands, with those that were
handed to it and without those that were handed on.  It answers how many there were, announces
the end of each once and nothing else, and leaves all others alone; if the provider was the
default, the least of the ids that are left takes its place.  A provider that is not registered
is refused, and nothing is changed. -/
theorem dismissal (hm : m.Reachable) (providerId : String) :
    (∀ c, c ∈ m.heldBy providerId ↔
      m.conversation? c.id = some c ∧ c.providerId = providerId) ∧
    ((m.heldBy providerId).map Conversation.id).Nodup ∧
    (∀ id c, (m.switchProvider id providerId).result = .ok c →
      ∀ other, c ∈ (m.switchProvider id providerId).manager.heldBy other ↔ providerId = other) ∧
    (m.providers.contains providerId = true →
      m.Dismisses providerId (m.unregister providerId)) ∧
    (m.providers.contains providerId = false →
      m.unregister providerId =
        { manager := m, result := .error (.providerNotFound providerId) }) := by
  refine ⟨fun c => mem_heldBy hm.sound, nodup_heldBy hm.sound providerId, ?_,
    unregister_dismisses hm.sound, unregister_absent⟩
  intro id c hc other
  obtain ⟨before, p, hands⟩ := switchProvider_ok hc
  rw [hands.switchProvider_eq] at hc
  obtain rfl := Except.ok.inj hc
  exact hands.mem_heldBy hm.sound other

/-- The porter took over from the keeper, so the conversation ends with the porter, and the
butler is the one asked when the keeper has gone. -/
theorem dismissal_porter :
    let handed := (Inn.staffed.switchProvider "evening" "porter").manager
    let evening := { Inn.evening with providerId := "porter" }
    handed.Dismisses "keeper" (handed.unregister "keeper") ∧
    handed.Dismisses "porter" (handed.unregister "porter") ∧
    handed.heldBy "keeper" = [] ∧ handed.heldBy "porter" = [evening] ∧
    (handed.unregister "porter").events =
      [Event.ofConversation evening handed.now (.conversationEnded .providerUnregistered)] ∧
    (handed.unregister "keeper").manager.conversation? "evening" = some evening ∧
    (handed.unregister "keeper").manager.defaultProvider = some "butler" ∧
    handed.unregister "cook" =
      { manager := handed, result := .error (.providerNotFound "cook") } := by
  intro handed evening
  have reachable : handed.Reachable :=
    Inn.staffed_reachable.perform (.switchProvider "evening" "porter") rfl
  obtain ⟨-, -, -, hkeeper, -⟩ := dismissal reachable "keeper"
  obtain ⟨-, -, -, hporter, -⟩ := dismissal reachable "porter"
  obtain ⟨-, -, -, -, hcook⟩ := dismissal reachable "cook"
  have keeper := hkeeper (by decide +kernel)
  have porter := hporter (by decide +kernel)
  have owned : handed.heldBy "porter" = [evening] := by decide +kernel
  have ended := porter.events
  rw [owned] at ended
  have kept : handed.arena.entries.get? "evening" =
      some { owner := "guest", conversation := evening } := by decide +kernel
  have stays := (keeper.conversations "evening" _).mpr ⟨kept, by decide⟩
  refine ⟨keeper, porter, by decide +kernel, owned, List.perm_singleton.mp ended,
    Arena.get?_eq_some_iff.mpr ⟨_, stays, rfl⟩, by decide +kernel, hcook (by decide +kernel)⟩

end Manager

end Parley
