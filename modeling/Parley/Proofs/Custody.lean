/-
Every conversation in the arena is where it belongs.

An arena entry keeps a second copy of the player, and its conversation names a
provider that is looked up elsewhere.  In every state that calls lead to the copies
agree, so the calls that rely on them cannot disagree either:

* `Manager.finish_result` — a conversation can be ended exactly if it is held;
* `Manager.mem_conversationsOf` — a player's list is what is held of that player;
* `Manager.Advanced.not_providerNotFound` — a line of input always finds the
  provider;
* `Manager.custody` — all of it, in every state.
-/
import Parley.Proofs.Manager.Run

namespace Parley.Manager

variable {α : Type} {f : Context → α} {m : Manager}

/-- An entry whose key, owner and provider are what its conversation says. -/
structure Holds (m : Manager) (id : String) (e : Arena.Entry) : Prop where
  id_eq : e.conversation.id = id
  owner_eq : e.owner = e.conversation.playerId
  isActive : e.conversation.isActive = true
  provider : ∃ p, m.providers.get? e.conversation.providerId = some p ∧
    p.id = e.conversation.providerId

theorem Sound.holds (hm : m.Sound f) {id : String} {e : Arena.Entry}
    (he : m.arena.entries.get? id = some e) : m.Holds id e := by
  obtain ⟨hid, howner, hactive, -⟩ := hm.arena id e he
  have hc : m.arena.get? id = some e.conversation := Arena.get?_eq_some_iff.mpr ⟨e, he, rfl⟩
  obtain ⟨p, hp, hpid, -⟩ := hm.provider hc
  exact ⟨hid, howner, hactive, p, hp, hpid⟩

theorem finish_result (hm : m.Sound f) (id : String) :
    (m.finish id).result = true ↔ m.arena.contains id = true := by
  rw [Arena.contains_eq_isSome]
  cases hc : m.arena.get? id with
  | none =>
    rw [finish_absent hc]
    simp
  | some c =>
    rw [finish_held hm hc]
    simp

theorem mem_conversationsOf (hm : m.Sound f) {playerId : String} {c : Conversation} :
    c ∈ m.conversationsOf playerId ↔
      (∃ id, m.arena.get? id = some c) ∧ c.playerId = playerId :=
  Arena.mem_ofPlayer hm.arena

theorem nodup_conversationsOf (hm : m.Sound f) (playerId : String) :
    (m.conversationsOf playerId).Nodup := by
  have ids := hm.arena.nodup_ofPlayer playerId
  exact List.Pairwise.of_map Conversation.id (fun _ _ hne heq => hne (congrArg _ heq)) ids

theorem Advanced.not_providerNotFound {ps : Participants} {id : String} {reply : Reply Answer}
    (h : m.Advanced f ps id reply) (providerId : String) :
    reply.result.response ≠ .error (.providerNotFound providerId) := by
  cases h with
  | absent | stranger | lapsed | treeless | nodeless | turned =>
    intro heq
    exact absurd heq (by simp [refuse, settle, Provider.turned])

/-- Whatever calls have led to a state, and whatever was restored in it. -/
theorem custody (hm : m.Reachable) :
    (∀ id e, m.arena.entries.get? id = some e → m.Holds id e) ∧
    (∀ id, (m.finish id).result = true ↔ m.arena.contains id = true) ∧
    (∀ playerId, (m.conversationsOf playerId).Nodup ∧
      ∀ c, c ∈ m.conversationsOf playerId ↔
        (∃ id, m.arena.get? id = some c) ∧ c.playerId = playerId) ∧
    ∀ ps id input providerId,
      (m.advance ps id input).result.response ≠ .error (.providerNotFound providerId) := by
  have sound := hm.sound
  refine ⟨fun id e he => sound.holds he, finish_result sound, fun playerId => ?_, ?_⟩
  · exact ⟨nodup_conversationsOf sound playerId, fun c => mem_conversationsOf sound⟩
  · intro ps id input providerId
    exact (advance_cases sound ps id input).not_providerNotFound providerId

/-- The inn holds the conversation that it restored, and can end it. -/
theorem custody_reopened :
    Inn.reopened.Holds "evening" { owner := "guest", conversation := Inn.evening } ∧
    (Inn.reopened.finish "evening").result = true ∧
    Inn.evening ∈ Inn.reopened.conversationsOf "guest" := by
  obtain ⟨hholds, hfinish, hlists, -⟩ := custody Inn.reopened_reachable
  refine ⟨hholds _ _ (by decide), (hfinish _).mpr (by decide), ?_⟩
  exact ((hlists "guest").2 _).mpr ⟨⟨"evening", by decide⟩, rfl⟩

end Parley.Manager
