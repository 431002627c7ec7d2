/-
The turns that calls of a manager play.

A start or a line of input is answered exactly if it plays one turn.
`Manager.Opens` and `Manager.Proceeds` name what that turn is played with, so that what
is known of turns can be said of calls:

* `Manager.start_ok`, `Manager.advance_ok` — a call that is answered has played a turn;
* `Manager.Opens.start_eq`, `Manager.Proceeds.advance_eq` — the turn decides what the call
  leaves and announces;
* `Manager.Opens.events_eq`, `Manager.Opens.arena_eq`, `Manager.Opens.id_eq` — in the parts
  that matter;
* `Manager.Opens.eq_of_held`, `Manager.Proceeds.eq_of_held` — afterwards the conversation is
  held as the turn left it, if at all;
* `Manager.expirePlayer_events` — what a start announces before its turn.
-/
import Parley.Proofs.Manager.Step
import Parley.Proofs.Turn.Sync

namespace Parley.Manager

variable {α : Type} {f : Context → α} {m : Manager} {ps : Participants} {r : Response}
  {play : Play} {tree : Tree} {p : Provider}

/-! ### Starting -/

/-- With room for another conversation, a start is for the provider that serves the NPC. -/
theorem start_resolved {providerId : Option String}
    (hroom : (m.afterExpiry ps.player.id).arena.countOfPlayer ps.player.id <
      m.config.maxConversationsPerPlayer)
    (hresolve : m.resolve ps.npc.id providerId = .ok p) :
    m.start ps providerId =
      let reply := (m.afterExpiry ps.player.id).settle
        (p.start (m.afterExpiry ps.player.id).forum ps)
      { reply with events := (m.expirePlayer ps.player.id).2 ++ reply.events } := by
  -- Ending idle conversations changes neither the limit nor the providers.
  have room : ¬ (m.afterExpiry ps.player.id).config.maxConversationsPerPlayer ≤
      (m.afterExpiry ps.player.id).arena.countOfPlayer ps.player.id := Nat.not_le_of_lt hroom
  have resolved : (m.afterExpiry ps.player.id).resolve ps.npc.id providerId = .ok p := hresolve
  rw [start]
  simp only [expirePlayer_fst]
  rw [if_neg room, resolved]

/-- The start of a conversation finds room, a provider and a tree, and plays its first
turn. -/
structure Opens (m : Manager) (ps : Participants) (providerId : Option String) (p : Provider)
    (tree : Tree) (play : Play) (r : Response) : Prop where
  room : (m.afterExpiry ps.player.id).arena.countOfPlayer ps.player.id <
    m.config.maxConversationsPerPlayer
  resolve : m.resolve ps.npc.id providerId = .ok p
  mapped : p.treeOf ps.npc.id = .ok tree
  begins : (p.turn m.forum tree).begin
    (Play.ofConversation (p.newConversation m.forum ps tree) ps p.taken) = (play, .ok r)

variable {providerId : Option String}

namespace Opens

theorem registered (hm : m.Sound f) (h : m.Opens ps providerId p tree play r) :
    m.providers.get? p.id = some p ∧ p.Fit f := by
  obtain ⟨registered, hp⟩ := resolve_mem h.resolve
  obtain ⟨rfl, hfit⟩ := hm.registry _ _ hp
  exact ⟨hp, hfit⟩

theorem valid (hm : m.Sound f) (h : m.Opens ps providerId p tree play r) : tree.Valid := by
  obtain ⟨treeId, hmem⟩ := Provider.treeOf_mem h.mapped
  exact ((h.registered hm).2.authored.holdsValid treeId tree hmem).1

theorem played (hm : m.Sound f) (h : m.Opens ps providerId p tree play r) :
    (Play.ofConversation (p.newConversation m.forum ps tree) ps p.taken).Played f m.now
      play r := by
  obtain ⟨play', r', hbegin, hplayed⟩ := Turn.begin_played (t := p.turn m.forum tree)
    (p := Play.ofConversation (p.newConversation m.forum ps tree) ps p.taken)
    (h.registered hm).2.steady (h.valid hm) rfl rfl
  rw [h.begins] at hbegin
  obtain ⟨rfl, hr⟩ := Prod.mk.inj hbegin
  obtain rfl := Except.ok.inj hr
  exact hplayed

theorem synced (h : m.Opens ps providerId p tree play r) : play.Synced := by
  have begun := Turn.begin_synced (congrArg Prod.snd h.begins)
  rwa [h.begins] at begun

/-- The conversation is held after the idle ones of the player have ended. -/
theorem start_eq (h : m.Opens ps providerId p tree play r) :
    m.start ps providerId =
      let reply := (m.afterExpiry ps.player.id).settle
        (p.opened (m.afterExpiry ps.player.id).forum ps tree play r)
      { reply with events := (m.expirePlayer ps.player.id).2 ++ reply.events } := by
  have opened : p.start (m.afterExpiry ps.player.id).forum ps =
      p.opened (m.afterExpiry ps.player.id).forum ps tree play r :=
    Provider.start_opened h.mapped h.begins
  rw [start_resolved h.room h.resolve, opened]

theorem events_eq (h : m.Opens ps providerId p tree play r) :
    (m.start ps providerId).events = (m.expirePlayer ps.player.id).2 ++
      p.startEvent (m.afterExpiry ps.player.id).forum ps tree :: play.events := by
  rw [h.start_eq]
  rfl

theorem arena_eq (h : m.Opens ps providerId p tree play r) :
    (m.start ps providerId).manager.arena =
      if play.conversation.isActive then
        (m.afterExpiry ps.player.id).arena.insert play.conversation
      else (m.afterExpiry ps.player.id).arena := by
  rw [h.start_eq]
  rfl

theorem ids_eq (h : m.Opens ps providerId p tree play r) :
    (m.start ps providerId).manager.forum.ids = m.forum.ids.advance := by
  rw [h.start_eq]
  rfl

/-- The conversation gets the next id. -/
theorem id_eq (hm : m.Sound f) (h : m.Opens ps providerId p tree play r) :
    play.conversation.id = m.forum.ids.next :=
  (h.played hm).continues.id

theorem conversationId_eq (hm : m.Sound f) (h : m.Opens ps providerId p tree play r) :
    r.conversationId = m.forum.ids.next :=
  (h.played hm).shows.conversationId.trans (h.id_eq hm)

/-- Under a new id nothing is held after the start but what its turn left. -/
theorem eq_of_held (hm : m.Sound f) (h : m.Opens ps providerId p tree play r)
    (hnew : m.arena.contains m.forum.ids.next = false) {c : Conversation}
    (hc : (m.start ps providerId).manager.arena.get? r.conversationId = some c) :
    c = play.conversation := by
  rw [h.arena_eq, h.conversationId_eq hm] at hc
  have unheld : (m.afterExpiry ps.player.id).arena.get? m.forum.ids.next ≠ some c := by
    intro hget
    have before := (Arena.get?_without_cases hget).2
    rw [Arena.get?_eq_none_iff.mpr hnew] at before
    exact absurd before (by simp)
  split at hc
  · exact (Arena.get?_insert_cases hc).resolve_right unheld
  · exact absurd hc unheld

end Opens

theorem start_ok (hm : m.Sound f) (h : (m.start ps providerId).result.response = .ok r) :
    ∃ p tree play, m.Opens ps providerId p tree play r := by
  have hm' := hm.afterExpiry ps.player.id
  obtain ⟨reply, hstarted, hstart⟩ := start_cases hm ps providerId
  have hr : reply.result.response = .ok r := by
    rw [hstart] at h
    exact h
  cases hstarted with
  | overQuota | unresolved | treeless => exact absurd hr (by simp [refuse])
  | @opened p _ _ _ hquota hresolve htree =>
    obtain ⟨registered, hp⟩ := resolve_mem hresolve
    obtain ⟨-, hfit⟩ := hm'.registry registered p hp
    rcases Provider.start_cases hfit (m.afterExpiry ps.player.id).forum ps with
      ⟨e, herror, -⟩ | ⟨tree, play, r', htree, hbegin, hplayed⟩
    · rw [htree] at herror
      exact absurd herror (by simp)
    · have opens : m.Opens ps providerId p tree play r' := ⟨hquota, hresolve, htree, hbegin⟩
      rw [opens.start_eq] at h
      obtain rfl := Except.ok.inj h
      exact ⟨p, tree, play, opens⟩

/-! ### Going on -/

/-- A line of input finds its conversation, for its player and in time, and plays a turn at
its node. -/
structure Proceeds (m : Manager) (ps : Participants) (id input : String) (c : Conversation)
    (p : Provider) (tree : Tree) (n : Node) (play : Play) (r : Response) : Prop where
  held : m.arena.get? id = some c
  owner : c.playerId = ps.player.id
  live : c.isExpired m.now m.timeout = false
  provider : m.providers.get? c.providerId = some p
  installed : p.trees.get? c.treeId = some tree
  node : tree.node? c.currentNodeId = some n
  advances : (p.turn m.forum tree).advance
    (Play.ofConversation (c.touch m.now) ps p.taken) input = (play, .ok r)

variable {id input : String} {c : Conversation} {n : Node}

namespace Proceeds

theorem registered (hm : m.Sound f) (h : m.Proceeds ps id input c p tree n play r) :
    m.providers.get? p.id = some p ∧ p.Fit f := by
  obtain ⟨hid, hfit⟩ := hm.registry _ _ h.provider
  exact ⟨hid ▸ h.provider, hfit⟩

theorem valid (hm : m.Sound f) (h : m.Proceeds ps id input c p tree n play r) : tree.Valid :=
  ((h.registered hm).2.authored.holdsValid _ _ h.installed).1

theorem played (hm : m.Sound f) (h : m.Proceeds ps id input c p tree n play r) :
    (Play.ofConversation (c.touch m.now) ps p.taken).Played f m.now play r := by
  obtain ⟨play', r', hadvance, hplayed⟩ := Provider.turn_played (h.registered hm).2 m.forum ps
    (h.valid hm) (hm.arena.isActive h.held) h.node input
  rw [show (Play.ofConversation (c.touch m.forum.now) ps p.taken) =
    Play.ofConversation (c.touch m.now) ps p.taken from rfl, h.advances] at hadvance
  obtain ⟨rfl, hr⟩ := Prod.mk.inj hadvance
  obtain rfl := Except.ok.inj hr
  exact hplayed

theorem synced (h : m.Proceeds ps id input c p tree n play r) : play.Synced := by
  have advanced := Turn.advance_synced (t := p.turn m.forum tree)
    (p := Play.ofConversation (c.touch m.now) ps p.taken) h.node (congrArg Prod.snd h.advances)
  rwa [h.advances] at advanced

theorem advance_eq (hm : m.Sound f) (h : m.Proceeds ps id input c p tree n play r) :
    m.advance ps id input = m.settle (p.turned m.forum ps play r) :=
  advance_turned hm h.held h.owner h.live h.provider h.installed h.node h.advances (h.played hm)

theorem id_eq (hm : m.Sound f) (h : m.Proceeds ps id input c p tree n play r) :
    play.conversation.id = id := by
  have same : play.conversation.id = c.id := (h.played hm).continues.id
  exact same.trans (hm.arena.id_eq h.held)

/-- What the turn leaves of the conversation. -/
theorem get?_eq (hm : m.Sound f) (h : m.Proceeds ps id input c p tree n play r) :
    (m.advance ps id input).manager.arena.get? id =
      if play.conversation.isActive then some play.conversation else none := by
  have present : m.arena.contains play.conversation.id = true := by
    rw [h.id_eq hm]
    exact Arena.contains_of_get? h.held
  rw [h.advance_eq hm]
  show (m.arena.settle play.conversation).get? id = _
  rw [Arena.get?_settle present, if_pos (h.id_eq hm)]

theorem eq_of_held (hm : m.Sound f) (h : m.Proceeds ps id input c p tree n play r)
    {c' : Conversation}
    (hc' : (m.advance ps id input).manager.arena.get? r.conversationId = some c') :
    c' = play.conversation := by
  rw [(h.played hm).shows.conversationId, h.id_eq hm, h.get?_eq hm] at hc'
  split at hc'
  · exact (Option.some.inj hc').symm
  · exact absurd hc' (by simp)

end Proceeds

theorem advance_ok (hm : m.Sound f) (h : (m.advance ps id input).result.response = .ok r) :
    ∃ c p tree n play, m.Proceeds ps id input c p tree n play r := by
  have advanced := advance_cases hm ps id input
  generalize hreply : m.advance ps id input = reply at advanced
  rw [hreply] at h
  cases advanced with
  | absent | stranger | lapsed | treeless | nodeless => exact absurd h (by simp [refuse])
  | @turned c p tree n _ _ hc howner hlive hp htree hn =>
    obtain ⟨-, hfit⟩ := hm.registry _ _ hp
    obtain ⟨play, r', hadvance, hplayed⟩ := Provider.turn_played hfit m.forum ps
      (hfit.authored.holdsValid _ _ htree).1 (hm.arena.isActive hc) hn input
    have proceeds : m.Proceeds ps id input c p tree n play r' :=
      ⟨hc, howner, hlive, hp, htree, hn, hadvance⟩
    have hr : (m.advance ps id input).result.response = .ok r := by
      rw [hreply]
      exact h
    rw [proceeds.advance_eq hm] at hr
    obtain rfl := Except.ok.inj hr
    exact ⟨c, p, tree, n, play, proceeds⟩

/-- What a part of a response is known to be tells that there is one. -/
theorem exists_ok_of_map {β : Type} {response : Except DialogueError Response}
    {part : Response → β} {b : β} (h : response.toOption.map part = some b) :
    ∃ r, response = .ok r ∧ part r = b := by
  cases response with
  | error e => exact absurd h (by simp [Except.toOption])
  | ok r => exact ⟨r, rfl, Option.some.inj h⟩

/-! ### Before the turn of a start -/

/-- What a start announces first: the end of each idle conversation of the player. -/
theorem expirePlayer_events (hm : m.Sound f) (playerId : String) :
    (m.expirePlayer playerId).2 = (m.idle playerId).map fun c => c.endEvent .timeout m.now := by
  rw [expirePlayer_endEvents hm, endEvents, List.filterMap_map, ← List.filterMap_eq_map]
  refine List.filterMap_congr fun c hc => ?_
  rw [Function.comp_apply, ((mem_idle hm).mp hc).1]
  rfl

end Parley.Manager
