/-
What each call of a manager does, once and for all.

`Manager.Sound` is the invariant that every call keeps: the arena is in order, every
conversation in it belongs to a registered provider, and every provider is registered
under its own id and fit for use.  From a sound manager

* `Manager.start_cases` — a start is refused after the player's idle conversations
  were ended, or a whole turn is played and the conversation held if it goes on;
* `Manager.advance_cases` — a line of input is refused, ends an idle conversation, or
  is a whole turn;
* `Manager.finish_held`, `Manager.switchProvider_cases`, `Manager.unregister_held`,
  `Manager.cleanup_manager` — the calls that play no turn.
-/
import Parley.Manager.Maintenance
import Parley.Proofs.Provider

namespace Parley

variable {α : Type} {f : Context → α}

/-- Every provider stands under its own id and is fit for use. -/
def Registry (f : Context → α) (providers : Dict Provider) : Prop :=
  ∀ providerId p, providers.get? providerId = some p → p.id = providerId ∧ p.Fit f

namespace Registry

variable {providers : Dict Provider} {p : Provider}

theorem insert (h : Registry f providers) (hp : p.Fit f) :
    Registry f (providers.insert p.id p) := by
  intro providerId p' hget
  rcases Dict.get?_insert_cases hget with ⟨hid, rfl⟩ | hold
  · exact ⟨hid, hp⟩
  · exact h providerId p' hold

theorem erase (h : Registry f providers) (providerId : String) :
    Registry f (providers.erase providerId) := by
  intro other p' hget
  exact h other p' (Dict.get?_erase_cases hget).2

/-- A provider may be put back changed, under the id it had. -/
theorem modify (h : Registry f providers) (hp : p.Fit f) :
    Registry f (providers.modify p.id fun _ => p) := by
  intro providerId p' hget
  rcases Dict.get?_modify_cases hget with ⟨hid, _, -, rfl⟩ | hold
  · exact ⟨hid, hp⟩
  · exact h providerId p' hold

end Registry

namespace Manager

structure Sound (f : Context → α) (m : Manager) : Prop where
  arena : m.arena.Sound
  registered : ∀ id c, m.arena.get? id = some c → m.providers.contains c.providerId = true
  registry : Registry f m.providers

variable {m : Manager}

/-- Every conversation held is in the hands of a provider. -/
theorem Sound.provider (hm : m.Sound f) {id : String} {c : Conversation}
    (hc : m.arena.get? id = some c) :
    ∃ p, m.providers.get? c.providerId = some p ∧ p.id = c.providerId ∧ p.Fit f := by
  obtain ⟨p, hp⟩ := Option.isSome_iff_exists.mp (hm.registered id c hc)
  exact ⟨p, hp, hm.registry _ p hp⟩

/-- What is left alone of the context is a matter of the custom actions alone. -/
theorem Sound.withSteady {β : Type} {g : Context → β} (hm : m.Sound f)
    (hsteady : ∀ providerId p, m.providers.get? providerId = some p → Steady g p.hook) :
    m.Sound g := by
  refine ⟨hm.arena, hm.registered, fun providerId p hp => ?_⟩
  obtain ⟨hid, hfit⟩ := hm.registry providerId p hp
  exact ⟨hid, hfit.authored, hsteady providerId p hp⟩

/-- The arena may lose conversations, and no other change is looked at. -/
theorem Sound.without (hm : m.Sound f) (ids : List String) :
    (m.withArena (m.arena.without ids)).Sound f := by
  refine ⟨hm.arena.without ids, fun id c hc => ?_, hm.registry⟩
  exact hm.registered id c (Arena.get?_without_cases hc).2

theorem withProvider_self (hm : m.Sound f) {providerId : String} {p : Provider}
    (hp : m.providers.get? providerId = some p) : m.withProvider p = m := by
  obtain ⟨hid, -⟩ := hm.registry _ _ hp
  rw [withProvider, Dict.modify_self (hid ▸ hp)]

/-! ### Starting -/

/-- The player's conversations that have gone idle. -/
def idle (m : Manager) (playerId : String) : List Conversation :=
  (m.arena.ofPlayer playerId).filter (·.isExpired m.now m.timeout)

theorem mem_idle (hm : m.Sound f) {playerId : String} {c : Conversation} :
    c ∈ m.idle playerId ↔ m.arena.get? c.id = some c ∧ c.playerId = playerId ∧
      c.isExpired m.now m.timeout = true := by
  rw [idle, List.mem_filter, Arena.mem_ofPlayer_held hm.arena, and_assoc]

/-- The manager once the player's idle conversations have ended. -/
def afterExpiry (m : Manager) (playerId : String) : Manager :=
  m.withArena (m.arena.without ((m.idle playerId).map Conversation.id))

theorem expirePlayer_fst (m : Manager) (playerId : String) :
    (m.expirePlayer playerId).1 = m.afterExpiry playerId := by
  rw [expirePlayer, afterExpiry]
  simp only
  rw [Arena.finishAll_arena]
  rfl

theorem Sound.afterExpiry (hm : m.Sound f) (playerId : String) :
    (m.afterExpiry playerId).Sound f :=
  hm.without _

theorem resolve_mem {npcId : String} {providerId : Option String} {p : Provider}
    (h : m.resolve npcId providerId = .ok p) :
    ∃ registered, m.providers.get? registered = some p := by
  have default_mem : ∀ p, m.default? = some p →
      ∃ registered, m.providers.get? registered = some p := by
    intro p hp
    obtain ⟨registered, -, hget⟩ := Option.bind_eq_some_iff.mp hp
    exact ⟨registered, hget⟩
  rw [resolve.eq_def] at h
  split at h
  · split at h
    · obtain rfl := Except.ok.inj h
      exact ⟨_, by assumption⟩
    · exact absurd h (by simp)
  · simp only at h
    split at h
    · rename_i p' hfound
      obtain rfl := Except.ok.inj h
      rw [Option.orElse_eq_orElse, Option.orElse_eq_or, Option.or_eq_some_iff] at hfound
      rcases hfound with hfind | ⟨-, hdefault⟩
      · rcases List.mem_append.mp (List.mem_of_find?_eq_some hfind) with hmem | hmem
        · exact default_mem _ (Option.mem_toList.mp hmem)
        · exact Dict.mem_values.mp hmem
      · exact default_mem _ hdefault
    · exact absurd h (by simp)

/-- What a start comes to in `m`, where no conversation of the player is idle. -/
inductive Started (f : Context → α) (m : Manager) (ps : Participants)
    (providerId : Option String) : Reply Answer → Prop where
  | overQuota
      (hquota : m.config.maxConversationsPerPlayer ≤ m.arena.countOfPlayer ps.player.id) :
      Started f m ps providerId
        (m.refuse ps (.quotaExceeded ps.player.id m.config.maxConversationsPerPlayer))
  | unresolved {e : DialogueError}
      (hquota : m.arena.countOfPlayer ps.player.id < m.config.maxConversationsPerPlayer)
      (hresolve : m.resolve ps.npc.id providerId = .error e) :
      Started f m ps providerId (m.refuse ps e)
  | treeless {p : Provider} {e : DialogueError}
      (hquota : m.arena.countOfPlayer ps.player.id < m.config.maxConversationsPerPlayer)
      (hresolve : m.resolve ps.npc.id providerId = .ok p)
      (htree : p.treeOf ps.npc.id = .error e) :
      Started f m ps providerId (m.refuse ps e)
  | opened {p : Provider} {tree : Tree} {play : Play} {r : Response}
      (hquota : m.arena.countOfPlayer ps.player.id < m.config.maxConversationsPerPlayer)
      (hresolve : m.resolve ps.npc.id providerId = .ok p)
      (htree : p.treeOf ps.npc.id = .ok tree)
      (hplayed : (Play.ofConversation (p.newConversation m.forum ps tree) ps p.taken).Played f
        m.now play r) :
      Started f m ps providerId (m.settle (p.opened m.forum ps tree play r))

/-- A start in a sound manager: first the player's idle conversations end. -/
theorem start_cases (hm : m.Sound f) (ps : Participants) (providerId : Option String) :
    ∃ reply, (m.afterExpiry ps.player.id).Started f ps providerId reply ∧
      m.start ps providerId =
        { reply with events := (m.expirePlayer ps.player.id).2 ++ reply.events } := by
  have hm' := hm.afterExpiry ps.player.id
  rw [start]
  simp only [expirePlayer_fst]
  refine ⟨_, ?_, rfl⟩
  split
  · rename_i hquota
    exact .overQuota hquota
  · rename_i hquota
    have hquota := Nat.lt_of_not_le hquota
    split
    · rename_i hresolve
      exact .unresolved hquota hresolve
    · rename_i p hresolve
      obtain ⟨registered, hp⟩ := resolve_mem hresolve
      obtain ⟨-, hfit⟩ := hm'.registry registered p hp
      rcases Provider.start_cases hfit (m.afterExpiry ps.player.id).forum ps with
        ⟨e, htree, hstart⟩ | ⟨tree, play, r, htree, hbegin, hplayed⟩
      · -- Refusing leaves the provider as it is, and putting it back changes nothing.
        have back := withProvider_self hm' hp
        rw [hstart, show (m.afterExpiry ps.player.id).settle (p.refuse _ ps e) =
          (m.afterExpiry ps.player.id).refuse ps e by simp [settle, Provider.refuse, refuse, back]]
        exact .treeless hquota hresolve htree
      · rw [Provider.start_opened htree hbegin]
        exact .opened hquota hresolve htree hplayed

/-! ### Going on -/

/-- What a line of input comes to: the first check that fails, or a whole turn. -/
inductive Advanced (f : Context → α) (m : Manager) (ps : Participants) (id : String) :
    Reply Answer → Prop where
  | absent (hc : m.arena.get? id = none) :
      Advanced f m ps id (m.refuse ps (.conversationNotFound id))
  | stranger {c : Conversation} (hc : m.arena.get? id = some c)
      (howner : c.playerId ≠ ps.player.id) :
      Advanced f m ps id (m.refuse ps (.ownershipMismatch id ps.player.id))
  | lapsed {c : Conversation} (hc : m.arena.get? id = some c)
      (howner : c.playerId = ps.player.id) (hidle : c.isExpired m.now m.timeout = true) :
      Advanced f m ps id { (m.withArena (m.arena.remove id)).refuse ps (.timeout id) with
        events := [c.endEvent .timeout m.now] }
  | treeless {c : Conversation} {p : Provider} (hc : m.arena.get? id = some c)
      (howner : c.playerId = ps.player.id) (hlive : c.isExpired m.now m.timeout = false)
      (hp : m.providers.get? c.providerId = some p) (htree : p.trees.get? c.treeId = none) :
      Advanced f m ps id (m.refuse ps (.treeNotFound c.treeId))
  | nodeless {c : Conversation} {p : Provider} {tree : Tree} (hc : m.arena.get? id = some c)
      (howner : c.playerId = ps.player.id) (hlive : c.isExpired m.now m.timeout = false)
      (hp : m.providers.get? c.providerId = some p)
      (htree : p.trees.get? c.treeId = some tree) (hn : tree.node? c.currentNodeId = none) :
      Advanced f m ps id (m.refuse ps (.nodeNotFound c.treeId c.currentNodeId))
  | turned {c : Conversation} {p : Provider} {tree : Tree} {n : Node} {play : Play}
      {r : Response} (hc : m.arena.get? id = some c) (howner : c.playerId = ps.player.id)
      (hlive : c.isExpired m.now m.timeout = false)
      (hp : m.providers.get? c.providerId = some p)
      (htree : p.trees.get? c.treeId = some tree) (hn : tree.node? c.currentNodeId = some n)
      (hplayed : (Play.ofConversation (c.touch m.now) ps p.taken).Played f m.now play r) :
      Advanced f m ps id (m.settle (p.turned m.forum ps play r))

/-- A refusal by the provider is a refusal by the manager. -/
theorem settle_refuse (hm : m.Sound f) {providerId : String} {p : Provider}
    (hp : m.providers.get? providerId = some p) (ps : Participants) (e : DialogueError) :
    m.settle (p.refuse m.forum ps e) = m.refuse ps e := by
  have back := withProvider_self hm hp
  rw [settle, Provider.refuse, refuse]
  simp only [back]

/-- A completed conversation is taken out by the provider; taking it out again
changes nothing. -/
theorem settle_turned_again (m : Manager) {p : Provider} {ps : Participants} {play : Play}
    {r : Response} {id : String} (hid : play.conversation.id = id)
    (hcomplete : (!play.conversation.isActive) = true) :
    let reply := m.settle (p.turned m.forum ps play r)
    { reply with manager := reply.manager.withArena (reply.manager.arena.remove id) } = reply := by
  have settled : m.forum.arena.settle play.conversation = m.forum.arena.remove id := by
    rw [Arena.settle]
    rw [if_neg (by simpa using hcomplete), hid]
  intro reply
  have again : reply.manager.arena.remove id = reply.manager.arena := by
    show (m.forum.arena.settle play.conversation).remove id = m.forum.arena.settle play.conversation
    rw [settled, Arena.remove_remove]
  rw [again]
  rfl

/-- The manager takes a conversation out if the answer says that it is complete. -/
def dropCompleted (id : String) (reply : Reply Answer) : Reply Answer :=
  match reply.result.response with
  | .ok r =>
    if r.isComplete then
      { reply with manager := reply.manager.withArena (reply.manager.arena.remove id) }
    else reply
  | .error _ => reply

/-- A line of input that passes the checks of the manager is left to the provider, whose
own checks pass again. -/
theorem advance_admitted (hm : m.Sound f) {ps : Participants} {id : String} {c : Conversation}
    {p : Provider} (hc : m.arena.get? id = some c) (howner : c.playerId = ps.player.id)
    (hlive : c.isExpired m.now m.timeout = false)
    (hp : m.providers.get? c.providerId = some p) (input : String) :
    m.advance ps id input =
      dropCompleted id (m.settle (match p.trees.get? c.treeId with
        | none => p.refuse m.forum ps (.treeNotFound c.treeId)
        | some tree =>
          if (tree.node? c.currentNodeId).isNone then
            p.refuse m.forum ps (.nodeNotFound tree.id c.currentNodeId)
          else p.runTurn m.forum ps tree c input)) := by
  obtain ⟨hid, -⟩ := hm.registry _ _ hp
  have checked := Provider.advance_admitted m.forum hc (hm.arena.isActive hc) hid howner hlive input
  rw [advance, hc]
  simp only
  rw [if_neg (by simpa using howner), if_neg (by simp [hlive])]
  simp only [hp]
  rw [checked]
  rfl

/-- A line of input whose turn succeeds. -/
theorem advance_turned (hm : m.Sound f) {ps : Participants} {id input : String}
    {c : Conversation} {p : Provider} {tree : Tree} {n : Node} {play : Play} {r : Response}
    (hc : m.arena.get? id = some c) (howner : c.playerId = ps.player.id)
    (hlive : c.isExpired m.now m.timeout = false)
    (hp : m.providers.get? c.providerId = some p)
    (htree : p.trees.get? c.treeId = some tree) (hn : tree.node? c.currentNodeId = some n)
    (hadvance : (p.turn m.forum tree).advance
      (Play.ofConversation (c.touch m.now) ps p.taken) input = (play, .ok r))
    (hplayed : (Play.ofConversation (c.touch m.now) ps p.taken).Played f m.now play r) :
    m.advance ps id input = m.settle (p.turned m.forum ps play r) := by
  have same : play.conversation.id = c.id := hplayed.continues.id
  have turned : m.settle (p.runTurn m.forum ps tree c input) =
      m.settle (p.turned m.forum ps play r) := by
    rw [Provider.runTurn_turned hadvance same]
  rw [advance_admitted hm hc howner hlive hp]
  simp only [htree, hn, Option.isNone_some, Bool.false_eq_true, if_false, turned]
  show (if r.isComplete then _ else m.settle (p.turned m.forum ps play r)) = _
  split
  · rename_i hcomplete
    exact settle_turned_again m (same.trans (hm.arena.id_eq hc))
      (hplayed.shows.isComplete ▸ hcomplete)
  · rfl

theorem advance_cases (hm : m.Sound f) (ps : Participants) (id input : String) :
    m.Advanced f ps id (m.advance ps id input) := by
  cases hc : m.arena.get? id with
  | none =>
    rw [advance, hc]
    exact .absent hc
  | some c =>
    by_cases howner : c.playerId = ps.player.id
    · cases hidle : c.isExpired m.now m.timeout with
      | true =>
        rw [advance, hc]
        simp only
        rw [if_neg (by simpa using howner), if_pos hidle, Arena.finishAll_cons_held hm.arena hc]
        exact .lapsed hc howner hidle
      | false =>
        obtain ⟨p, hp, -, hfit⟩ := hm.provider hc
        have admitted := advance_admitted hm hc howner hidle hp input
        cases htree : p.trees.get? c.treeId with
        | none =>
          simp only [htree, settle_refuse hm hp] at admitted
          rw [admitted]
          exact .treeless hc howner hidle hp htree
        | some tree =>
          obtain ⟨hvalid, htreeId⟩ := hfit.authored.holdsValid _ _ htree
          cases hn : tree.node? c.currentNodeId with
          | none =>
            simp only [htree, hn, Option.isNone_none, if_true, settle_refuse hm hp, htreeId]
              at admitted
            rw [admitted]
            exact .nodeless hc howner hidle hp htree hn
          | some n =>
            obtain ⟨play, r, hadvance, hplayed⟩ := Provider.turn_played hfit m.forum ps hvalid
              (hm.arena.isActive hc) hn input
            rw [advance_turned hm hc howner hidle hp htree hn hadvance hplayed]
            exact .turned hc howner hidle hp htree hn hplayed
    · rw [advance, hc]
      simp only
      rw [if_pos (by simpa using howner)]
      exact .stranger hc howner

/-! ### Calls that play no turn -/

theorem finish_held (hm : m.Sound f) {id : String} {c : Conversation}
    (hc : m.arena.get? id = some c) :
    m.finish id = { manager := m.withArena (m.arena.remove id)
                    events := [c.endEvent .explicit m.now]
                    result := true } := by
  obtain ⟨p, hp, hid, -⟩ := hm.provider hc
  -- The provider is found by the name that the conversation carries, so it is its own.
  have own : p.conversation? m.forum id = some c := by
    rw [Provider.conversation?, show m.forum.arena.get? id = some c from hc,
      Option.filter_some, if_pos (beq_iff_eq.mpr hid.symm)]
  rw [finish, hc]
  simp only [hp]
  rw [Provider.finish, own]
  simp only
  rw [Arena.finish_held (a := m.forum.arena) hm.arena hc]
  rfl

theorem finish_absent {id : String} (hc : m.arena.get? id = none) :
    m.finish id = { manager := m, result := false } := by
  rw [finish, hc]

/-- What handing a conversation over comes to. -/
inductive Switched (m : Manager) (id providerId : String) :
    Reply (Except DialogueError Conversation) → Prop where
  | refused (e : DialogueError) : Switched m id providerId { manager := m, result := .error e }
  | same {c : Conversation} (hc : m.arena.get? id = some c) (hprovider : c.providerId = providerId) :
      Switched m id providerId { manager := m, result := .ok c }
  | moved {c : Conversation} {p : Provider} (hc : m.arena.get? id = some c)
      (hp : m.providers.get? providerId = some p) (hhandle : p.canHandle c.npcId = true)
      (hprovider : c.providerId ≠ providerId) :
      Switched m id providerId
        { manager := m.withArena (m.arena.update id { c with providerId })
          events := [Event.ofConversation { c with providerId } m.now
            (.providerSwitched c.providerId providerId)]
          result := .ok { c with providerId } }

theorem switchProvider_cases (m : Manager) (id providerId : String) :
    m.Switched id providerId (m.switchProvider id providerId) := by
  rw [switchProvider]
  cases hp : m.providers.get? providerId with
  | none => exact .refused _
  | some p =>
    simp only
    cases hc : m.arena.get? id with
    | none => exact .refused _
    | some c =>
      simp only
      split
      · exact .refused _
      · rename_i hhandle
        split
        · rename_i hprovider
          exact .same hc hprovider
        · rename_i hprovider
          exact .moved hc hp (by simpa using hhandle) hprovider

theorem unregister_held {providerId : String} (h : m.providers.contains providerId = true) :
    (m.unregister providerId).manager =
      { m.withArena (m.arena.without (m.arena.idsOfProvider providerId)) with
        providers := m.providers.erase providerId
        defaultProvider := if m.defaultProvider = some providerId
          then (m.providers.erase providerId).keys.head? else m.defaultProvider } ∧
    (m.unregister providerId).events = (m.arena.finishAll .providerUnregistered m.now
      (m.arena.idsOfProvider providerId)).2.2 := by
  rw [unregister, if_pos h]
  refine ⟨?_, rfl⟩
  simp only
  rw [Arena.finishAll_arena]

theorem unregister_absent {providerId : String} (h : m.providers.contains providerId = false) :
    m.unregister providerId =
      { manager := m, result := .error (.providerNotFound providerId) } := by
  rw [unregister, h]
  rfl

theorem cleanup_manager (m : Manager) :
    m.cleanup.manager = m.withArena (m.arena.without (m.arena.staleIds m.now m.timeout)) := by
  rw [cleanup, Arena.sweep_eq]
  simp only
  rw [Arena.finishAll_arena]

theorem cleanup_events (m : Manager) :
    m.cleanup.events =
      (m.arena.finishAll .timeout m.now (m.arena.staleIds m.now m.timeout)).2.2 := rfl

/-- Saving changes nothing but the store. -/
theorem autosave_frame {count : Nat} {m' : Manager} (h : m.autosave = .ok (m', count)) :
    ∃ store, m' = { m with store } := by
  rw [autosave] at h
  split at h
  · obtain ⟨rfl, -⟩ := Prod.mk.inj (Except.ok.inj h)
    exact ⟨m.store, rfl⟩
  · split at h
    · obtain ⟨rfl, -⟩ := Prod.mk.inj (Except.ok.inj h)
      exact ⟨_, rfl⟩
    · exact absurd h (by simp)

end Manager

end Parley
