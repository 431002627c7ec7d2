/-
When a conversation can go on, and what a line of input leaves if it cannot.

The manager, the provider and the turn each look something up, and the turn runs
actions on the way.  Since only valid trees are held, whatever can fail is asked
before anything happens:

* `Manager.Admits` — the line of input is taken;
* `Manager.Refuses` — the first check that fails, and its error;
* `Manager.Advanced.admits_or_refuses` — a line of input does what the one or the
  other says;
* `Manager.continuation` — so in every state, and no failure but a timeout leaves a
  trace.

Design notes: a tree may be replaced in the middle of a conversation, which is why its
node can be missing at all.
-/
import Parley.Proofs.Manager.Run

namespace Parley.Manager

variable {α : Type} {f : Context → α} {m : Manager} {ps : Participants} {id : String}

/-- The tree that a conversation is on, if its provider still has it. -/
def treeOf? (m : Manager) (c : Conversation) : Option Tree :=
  (m.providers.get? c.providerId).bind fun p => p.trees.get? c.treeId

/-- All checks pass. -/
def Admits (m : Manager) (ps : Participants) (id : String) : Prop :=
  ∃ c tree n, m.arena.get? id = some c ∧ c.playerId = ps.player.id ∧
    c.isExpired m.now m.timeout = false ∧ m.treeOf? c = some tree ∧
    tree.node? c.currentNodeId = some n

/-- The checks in their order, each with the error if those before it pass. -/
inductive Refuses (m : Manager) (ps : Participants) (id : String) : DialogueError → Prop where
  | absent (hc : m.arena.get? id = none) : Refuses m ps id (.conversationNotFound id)
  | stranger {c : Conversation} (hc : m.arena.get? id = some c)
      (howner : c.playerId ≠ ps.player.id) : Refuses m ps id (.ownershipMismatch id ps.player.id)
  | lapsed {c : Conversation} (hc : m.arena.get? id = some c)
      (howner : c.playerId = ps.player.id) (hidle : c.isExpired m.now m.timeout = true) :
      Refuses m ps id (.timeout id)
  | treeless {c : Conversation} (hc : m.arena.get? id = some c)
      (howner : c.playerId = ps.player.id) (hlive : c.isExpired m.now m.timeout = false)
      (htree : m.treeOf? c = none) : Refuses m ps id (.treeNotFound c.treeId)
  | nodeless {c : Conversation} {tree : Tree} (hc : m.arena.get? id = some c)
      (howner : c.playerId = ps.player.id) (hlive : c.isExpired m.now m.timeout = false)
      (htree : m.treeOf? c = some tree) (hn : tree.node? c.currentNodeId = none) :
      Refuses m ps id (.nodeNotFound c.treeId c.currentNodeId)

/-- Only one check is the first that fails. -/
theorem Refuses.unique {e e' : DialogueError} (h : m.Refuses ps id e) (h' : m.Refuses ps id e') :
    e = e' := by
  cases h <;> cases h' <;> simp_all

theorem Refuses.not_admits {e : DialogueError} (h : m.Refuses ps id e) : ¬ m.Admits ps id := by
  rintro ⟨c, tree, n, hc, howner, hlive, htree, hn⟩
  cases h <;> simp_all

theorem treeOf?_eq {c : Conversation} {p : Provider}
    (hp : m.providers.get? c.providerId = some p) :
    m.treeOf? c = p.trees.get? c.treeId := by
  rw [treeOf?, hp, Option.bind_some]

/-- A line of input is taken and answered, or refused with the error of the first check
that fails. -/
theorem Advanced.admits_or_refuses {reply : Reply Answer} (h : m.Advanced f ps id reply) :
    (m.Admits ps id ∧ ∃ r, reply.result.response = .ok r) ∨
    ∃ e, m.Refuses ps id e ∧ reply.result.response = .error e := by
  cases h with
  | absent hc => exact .inr ⟨_, .absent hc, rfl⟩
  | stranger hc howner => exact .inr ⟨_, .stranger hc howner, rfl⟩
  | lapsed hc howner hidle => exact .inr ⟨_, .lapsed hc howner hidle, rfl⟩
  | treeless hc howner hlive hp htree =>
    rw [← treeOf?_eq hp] at htree
    exact .inr ⟨_, .treeless hc howner hlive htree, rfl⟩
  | nodeless hc howner hlive hp htree hn =>
    rw [← treeOf?_eq hp] at htree
    exact .inr ⟨_, .nodeless hc howner hlive htree hn, rfl⟩
  | turned hc howner hlive hp htree hn =>
    rw [← treeOf?_eq hp] at htree
    exact .inl ⟨⟨_, _, _, hc, howner, hlive, htree, hn⟩, _, rfl⟩

theorem Advanced.ok_iff {reply : Reply Answer} (h : m.Advanced f ps id reply) :
    (∃ r, reply.result.response = .ok r) ↔ m.Admits ps id := by
  rcases h.admits_or_refuses with ⟨hadmits, hok⟩ | ⟨e, hrefuses, herror⟩
  · exact ⟨fun _ => hadmits, fun _ => hok⟩
  · constructor
    · rintro ⟨r, hr⟩
      rw [herror] at hr
      exact absurd hr (by simp)
    · intro hadmits
      exact absurd hadmits hrefuses.not_admits

theorem Advanced.error_iff {reply : Reply Answer} (h : m.Advanced f ps id reply)
    (e : DialogueError) : reply.result.response = .error e ↔ m.Refuses ps id e := by
  rcases h.admits_or_refuses with ⟨hadmits, r, hok⟩ | ⟨e', hrefuses, herror⟩
  · constructor
    · intro he
      rw [hok] at he
      exact absurd he (by simp)
    · intro hrefuses
      exact absurd hadmits hrefuses.not_admits
  · constructor
    · intro he
      rw [herror] at he
      exact Except.error.inj he ▸ hrefuses
    · intro hrefuses'
      rw [herror, hrefuses.unique hrefuses']

/-- A refusal that is no timeout is nothing but its error. -/
theorem Advanced.refused {reply : Reply Answer} (h : m.Advanced f ps id reply)
    {e : DialogueError} (he : reply.result.response = .error e) (htimeout : e ≠ .timeout id) :
    reply = m.refuse ps e := by
  cases h with
  | absent | stranger | treeless | nodeless =>
    obtain rfl := Except.error.inj he
    rfl
  | lapsed =>
    obtain rfl := Except.error.inj he
    exact absurd rfl htimeout
  | turned => exact absurd he (by simp [settle, Provider.turned])

/-- A timeout takes out the one conversation and announces its end. -/
theorem Advanced.timedOut {reply : Reply Answer} (h : m.Advanced f ps id reply)
    (he : reply.result.response = .error (.timeout id)) :
    ∃ c, m.arena.get? id = some c ∧
      reply = { (m.withArena (m.arena.remove id)).refuse ps (.timeout id) with
        events := [c.endEvent .timeout m.now] } := by
  cases h with
  | absent | stranger | treeless | nodeless => exact absurd he (by simp [refuse])
  | lapsed hc => exact ⟨_, hc, rfl⟩
  | turned => exact absurd he (by simp [settle, Provider.turned])

theorem continuation (hm : m.Reachable) (ps : Participants) (id input : String) :
    ((∃ r, (m.advance ps id input).result.response = .ok r) ↔ m.Admits ps id) ∧
    (∀ e, (m.advance ps id input).result.response = .error e ↔ m.Refuses ps id e) ∧
    (∀ e, (m.advance ps id input).result.response = .error e → e ≠ .timeout id →
      (m.advance ps id input).manager = m ∧ (m.advance ps id input).events = [] ∧
        (m.advance ps id input).calls = [] ∧
        (m.advance ps id input).result.participants = ps) ∧
    ((m.advance ps id input).result.response = .error (.timeout id) →
      ∃ c, m.arena.get? id = some c ∧
        (m.advance ps id input).manager = m.withArena (m.arena.remove id) ∧
        (m.advance ps id input).events =
          [Event.ofConversation c m.now (.conversationEnded .timeout)] ∧
        (m.advance ps id input).calls = [] ∧
        (m.advance ps id input).result.participants = ps) := by
  have advanced := advance_cases hm.sound ps id input
  refine ⟨advanced.ok_iff, advanced.error_iff, fun e he htimeout => ?_, fun he => ?_⟩
  · rw [advanced.refused he htimeout]
    exact ⟨rfl, rfl, rfl, rfl⟩
  · obtain ⟨c, hc, hreply⟩ := advanced.timedOut he
    rw [hreply]
    exact ⟨c, hc, rfl, rfl, rfl, rfl⟩

/-- The guest of the inn can go on, and a stranger leaves no trace. -/
theorem continuation_reopened :
    (∃ r, (Inn.reopened.advance Inn.guest "evening" "").result.response = .ok r) ∧
    (Inn.reopened.advance {} "evening" "").result.response =
      .error (.ownershipMismatch "evening" "") ∧
    (Inn.reopened.advance {} "evening" "").manager = Inn.reopened := by
  have held : Inn.reopened.arena.get? "evening" = some Inn.evening := by decide
  have known : Inn.reopened.treeOf? Inn.evening = some Inn.greeting := by decide
  obtain ⟨hok, -⟩ := continuation Inn.reopened_reachable Inn.guest "evening" ""
  obtain ⟨-, herror, hatomic, -⟩ := continuation Inn.reopened_reachable {} "evening" ""
  have refused := (herror _).mpr (.stranger held (by decide))
  obtain ⟨hmanager, -⟩ := hatomic _ refused (by simp)
  exact ⟨hok.mpr ⟨_, _, _, held, rfl, by decide, known, rfl⟩, refused, hmanager⟩

end Parley.Manager
