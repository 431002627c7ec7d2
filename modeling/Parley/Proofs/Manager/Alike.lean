/-
Managers that are alike to one player.

Two managers are `Alike` to a player if they have the same set-up and hold the same
conversations under the ids of the player, while under other ids they hold what they will of
other players:

* `Manager.Alike.start_own`, `Manager.Alike.advance_own`, `Manager.Alike.finish_own`,
  `Manager.Alike.switchProvider_own`, `Manager.Alike.cleanup` — what is asked of both by or
  about the player is answered and announced alike, and leaves them alike;
* `Manager.Alike.start_other`, `Manager.Alike.advance_other`, `Manager.Alike.finish_other`,
  `Manager.Alike.switchProvider_other` — what is asked of one of them by or about others
  leaves them alike, and announces nothing about the player's conversations.

Design notes: the ids are the player's for good, also before they are given and after their
conversations have ended, so a manager may hold nothing under them.
-/
import Parley.Proofs.Manager.Requests

namespace Parley

variable {player : String} {ids : List String}

namespace Arena

variable {a a' : Arena} {id : String} {c : Conversation}

/-- An arena in order is known by the conversations that it holds. -/
theorem Sound.entries_get? (ha : a.Sound) (id : String) :
    a.entries.get? id = (a.get? id).map fun c => { owner := c.playerId, conversation := c } := by
  cases hc : a.get? id with
  | none => exact Option.map_eq_none_iff.mp hc
  | some c => exact (ha.fits hc).1

/-- What is held of the player is held under these ids, and nothing else is. -/
def Divides (player : String) (ids : List String) (a : Arena) : Prop :=
  ∀ id c, a.get? id = some c → (c.playerId = player ↔ id ∈ ids)

namespace Divides

theorem without (h : a.Divides player ids) (gone : List String) :
    (a.without gone).Divides player ids := by
  intro id c hc
  exact h id c (get?_without_cases hc).2

theorem remove (h : a.Divides player ids) (id : String) : (a.remove id).Divides player ids := by
  intro id' c hc
  rw [get?_remove] at hc
  split at hc
  · exact absurd hc (by simp)
  · exact h id' c hc

theorem insert (h : a.Divides player ids) (hc : c.playerId = player ↔ c.id ∈ ids) :
    (a.insert c).Divides player ids := by
  intro id c' hc'
  rw [get?_insert] at hc'
  split at hc'
  · rename_i hid
    obtain rfl := Option.some.inj hc'
    exact hid ▸ hc
  · exact h id c' hc'

theorem update (h : a.Divides player ids) (hc : a.get? id = some c) {c' : Conversation}
    (hplayer : c'.playerId = c.playerId) : (a.update id c').Divides player ids := by
  intro id' c'' hc''
  rw [get?_update] at hc''
  split at hc''
  · rename_i hid
    subst hid
    rw [hc] at hc''
    obtain rfl := Option.some.inj hc''
    rw [hplayer]
    exact h id c hc
  · exact h id' c'' hc''

theorem settle (h : a.Divides player ids) {c' : Conversation} (hc : a.get? c'.id = some c)
    (hplayer : c'.playerId = c.playerId) : (a.settle c').Divides player ids := by
  rw [Arena.settle]
  split
  · exact h.update hc hplayer
  · exact h.remove _

end Divides

/-- The same is held under the ids of the player, and only there is anything of the player. -/
structure Shares (player : String) (ids : List String) (a a' : Arena) : Prop where
  left : a.Divides player ids
  right : a'.Divides player ids
  same : ∀ id ∈ ids, a'.get? id = a.get? id

namespace Shares

theorem owned_eq (h : Shares player ids a a') (ha : a.Sound) (ha' : a'.Sound) (id : String) :
    (a'.entries.get? id).filter (·.owner == player) =
      (a.entries.get? id).filter (·.owner == player) := by
  rw [ha.entries_get?, ha'.entries_get?]
  by_cases hid : id ∈ ids
  · rw [h.same id hid]
  · -- Under other ids neither arena holds anything of the player.
    have none_of (a : Arena) (ha : a.Divides player ids) :
        ((a.get? id).map fun c => ({ owner := c.playerId, conversation := c } : Arena.Entry)).filter
          (·.owner == player) = none := by
      cases hc : a.get? id with
      | none => rfl
      | some c =>
        have hne : c.playerId ≠ player := fun heq => hid ((ha id c hc).mp heq)
        simp [Option.filter_some, hne]
    rw [none_of a h.left, none_of a' h.right]

/-- So the lists of the player's conversations are the same. -/
theorem ofPlayer_eq (h : Shares player ids a a') (ha : a.Sound) (ha' : a'.Sound) :
    a'.ofPlayer player = a.ofPlayer player := by
  have kept : (a'.entries.filter fun _ e => e.owner == player) =
      a.entries.filter fun _ e => e.owner == player := by
    refine Dict.ext_get? fun id => ?_
    rw [Dict.get?_filter, Dict.get?_filter]
    exact h.owned_eq ha ha' id
  rw [ofPlayer, ofPlayer, ← Dict.values_filter, ← Dict.values_filter, kept]

theorem without (h : Shares player ids a a') {gone gone' : List String}
    (hgone : ∀ id ∈ ids, id ∈ gone' ↔ id ∈ gone) :
    Shares player ids (a.without gone) (a'.without gone') := by
  refine ⟨h.left.without gone, h.right.without gone', fun id hid => ?_⟩
  rw [get?_without, get?_without, h.same id hid]
  simp only [hgone id hid]

theorem remove (h : Shares player ids a a') (id : String) :
    Shares player ids (a.remove id) (a'.remove id) := by
  refine ⟨h.left.remove id, h.right.remove id, fun id' hid' => ?_⟩
  rw [get?_remove, get?_remove, h.same id' hid']

theorem insert (h : Shares player ids a a') (hc : c.playerId = player ↔ c.id ∈ ids) :
    Shares player ids (a.insert c) (a'.insert c) := by
  refine ⟨h.left.insert hc, h.right.insert hc, fun id hid => ?_⟩
  rw [get?_insert, get?_insert, h.same id hid]

theorem update (h : Shares player ids a a') (hid : id ∈ ids) (hc : a.get? id = some c)
    {c' : Conversation} (hplayer : c'.playerId = c.playerId) :
    Shares player ids (a.update id c') (a'.update id c') := by
  refine ⟨h.left.update hc hplayer, h.right.update ((h.same id hid).trans hc) hplayer,
    fun id' hid' => ?_⟩
  rw [get?_update, get?_update, h.same id' hid']

theorem settle (h : Shares player ids a a') {c' : Conversation} (hid : c'.id ∈ ids)
    (hc : a.get? c'.id = some c) (hplayer : c'.playerId = c.playerId) :
    Shares player ids (a.settle c') (a'.settle c') := by
  rw [Arena.settle, Arena.settle]
  split
  · exact h.update hid hc hplayer
  · exact h.remove _

theorem staleIds_iff (h : Shares player ids a a') (ha : a.Sound) (ha' : a'.Sound)
    (now : Instant) (timeout : Int) (hid : id ∈ ids) :
    id ∈ a'.staleIds now timeout ↔ id ∈ a.staleIds now timeout := by
  rw [mem_staleIds ha, mem_staleIds ha', h.same id hid]

/-- The player's ids are swept in the same order, too. -/
theorem staleIds_eq (h : Shares player ids a a') (ha : a.Sound) (ha' : a'.Sound)
    (now : Instant) (timeout : Int) :
    (a'.staleIds now timeout).filter ids.contains =
      (a.staleIds now timeout).filter ids.contains := by
  rw [staleIds, staleIds, Dict.keys_filter, Dict.keys_filter]
  refine congrArg Dict.keys (Dict.ext_get? fun id => ?_)
  rw [Dict.get?_filter, Dict.get?_filter]
  by_cases hid : id ∈ ids
  · rw [ha.entries_get?, ha'.entries_get?, h.same id hid]
  · have dropped (e : Option Entry) :
        e.filter (fun e => ids.contains id && e.isStale now timeout) = none := by
      simp [hid]
    rw [dropped, dropped]

/-- One of the arenas changes where the other need not follow. -/
theorem apart {b : Arena} (h : Shares player ids a a') (hb : b.Divides player ids)
    (hsame : ∀ id ∈ ids, b.get? id = a.get? id) : Shares player ids b a' :=
  ⟨hb, h.right, fun id hid => (h.same id hid).trans (hsame id hid).symm⟩

theorem insert_other (h : Shares player ids a a') (hplayer : c.playerId ≠ player)
    (hid : c.id ∉ ids) : Shares player ids (a.insert c) a' := by
  refine h.apart (h.left.insert (iff_of_false hplayer hid)) fun id' hid' => ?_
  have hne : c.id ≠ id' := fun heq => hid (heq ▸ hid')
  rw [get?_insert, if_neg hne]

theorem remove_other (h : Shares player ids a a') (hid : id ∉ ids) :
    Shares player ids (a.remove id) a' := by
  refine h.apart (h.left.remove id) fun id' hid' => ?_
  have hne : id ≠ id' := fun heq => hid (heq ▸ hid')
  rw [get?_remove, if_neg hne]

theorem update_other (h : Shares player ids a a') (hid : id ∉ ids) (hc : a.get? id = some c)
    {c' : Conversation} (hplayer : c'.playerId = c.playerId) :
    Shares player ids (a.update id c') a' := by
  refine h.apart (h.left.update hc hplayer) fun id' hid' => ?_
  have hne : id ≠ id' := fun heq => hid (heq ▸ hid')
  rw [get?_update, if_neg hne]

theorem settle_other (h : Shares player ids a a') {c' : Conversation} (hid : c'.id ∉ ids)
    (hc : a.get? c'.id = some c) (hplayer : c'.playerId = c.playerId) :
    Shares player ids (a.settle c') a' := by
  rw [Arena.settle]
  split
  · exact h.update_other hid hc hplayer
  · exact h.remove_other hid

end Shares

end Arena

namespace Manager

variable {α : Type} {f : Context → α} {m m' : Manager}

structure Alike (player : String) (ids : List String) (m m' : Manager) : Prop where
  setup : m.SameSetup m'
  arena : Arena.Shares player ids m.arena m'.arena

/-- The events of a log that are addressed to conversations of the player. -/
def heard (ids : List String) (log : List Event) : List Event :=
  log.filter fun e => ids.contains e.conversationId

/-- Of the ends that are announced, those of the player's conversations are heard. -/
theorem heard_endEvents (hm : m.Sound f) (reason : EndReason) (gone : List String) :
    heard ids (m.endEvents reason gone) = m.endEvents reason (gone.filter ids.contains) := by
  rw [heard, endEvents, endEvents, List.filter_filterMap, List.filterMap_filter]
  refine List.filterMap_congr fun id _ => ?_
  cases hc : m.arena.get? id with
  | none => simp
  | some c =>
    have address : (c.endEvent reason m.now).conversationId = id := hm.arena.id_eq hc
    simp only [Option.map_some, Option.filter_some, address]

/-- The same is answered and announced, and the player's conversations are left the same. -/
structure InStep {β : Type} (player : String) (ids : List String) (r r' : Reply β) : Prop where
  result : r'.result = r.result
  events : r'.events = r.events
  arena : Arena.Shares player ids r.manager.arena r'.manager.arena

/-- Nothing is announced of the player's conversations, which are left as they were. -/
structure Aside {β : Type} (player : String) (ids : List String) (r : Reply β) (m' : Manager) :
    Prop where
  quiet : ∀ e ∈ r.events, e.conversationId ∉ ids
  arena : Arena.Shares player ids r.manager.arena m'.arena

namespace Alike

theorem atTime (h : Alike player ids m m') (now now' : Instant) :
    Alike player ids (m.atTime now) (m'.atTime now') :=
  ⟨⟨h.setup.config, h.setup.providers, h.setup.defaultProvider, h.setup.settings⟩, h.arena⟩

theorem resolve_eq (h : Alike player ids m m') (npcId : String) (providerId : Option String) :
    m'.resolve npcId providerId = m.resolve npcId providerId := by
  rw [resolve.eq_def, resolve.eq_def, default?, default?, h.setup.providers,
    h.setup.defaultProvider]

theorem timeout_eq (h : Alike player ids m m') : m'.timeout = m.timeout :=
  congrArg Settings.timeout h.setup.settings

theorem conversationsOf_eq (h : Alike player ids m m') (hm : m.Sound f) (hm' : m'.Sound f) :
    m'.conversationsOf player = m.conversationsOf player :=
  h.arena.ofPlayer_eq hm.arena hm'.arena

theorem idle_eq (h : Alike player ids m m') (hm : m.Sound f) (hm' : m'.Sound f)
    (hnow : m'.now = m.now) : m'.idle player = m.idle player := by
  rw [idle, idle, show m'.arena.ofPlayer player = _ from h.conversationsOf_eq hm hm', hnow,
    h.timeout_eq]
  rfl

theorem turn_eq (h : Alike player ids m m') (hnow : m'.now = m.now) (p : Provider)
    (tree : Tree) : p.turn m'.forum tree = p.turn m.forum tree := by
  rw [Provider.turn, Provider.turn, show m'.forum.now = m.forum.now from hnow, h.setup.settings]

theorem liveCount_eq (h : Alike player ids m m') (hm : m.Sound f) (hm' : m'.Sound f)
    (hnow : m'.now = m.now) : m'.liveCount player = m.liveCount player := by
  rw [liveCount, liveCount, h.conversationsOf_eq hm hm', hnow, h.timeout_eq]

/-! ### Starts -/

/-- A start of the player is stopped by the same check. -/
theorem declines (h : Alike player ids m m') (hm : m.Sound f) (hm' : m'.Sound f)
    (hnow : m'.now = m.now) {ps : Participants} (hplayer : ps.player.id = player)
    {providerId : Option String} {e : DialogueError} (he : m.Declines ps providerId e) :
    m'.Declines ps providerId e := by
  subst hplayer
  have hlive := h.liveCount_eq hm hm' hnow
  have hlimit : m'.config.maxConversationsPerPlayer = m.config.maxConversationsPerPlayer :=
    congrArg Config.maxConversationsPerPlayer h.setup.config
  -- There is room in both managers or in neither, and then both ask the same providers.
  have room : m.liveCount ps.player.id < m.config.maxConversationsPerPlayer ↔
      m'.liveCount ps.player.id < m'.config.maxConversationsPerPlayer := by
    rw [hlive, hlimit]
  cases he with
  | full hroom =>
    rw [← hlimit]
    exact .full (by rwa [hlive, hlimit])
  | unknown hroom hnamed hp =>
    exact .unknown (room.mp hroom) hnamed (h.setup.providers ▸ hp)
  | unserved hroom hnamed hdefault hnone =>
    refine .unserved (room.mp hroom) hnamed ?_ (h.setup.providers ▸ hnone)
    rw [default?, h.setup.providers, h.setup.defaultProvider]
    exact hdefault
  | unmapped hroom hresolve htree =>
    exact .unmapped (room.mp hroom) ((h.resolve_eq _ _).trans hresolve) htree
  | treeless hroom hresolve htree hgone =>
    exact .treeless (room.mp hroom) ((h.resolve_eq _ _).trans hresolve) htree hgone

/-- The idle conversations that end in a start are the same. -/
theorem expirePlayer (h : Alike player ids m m') (hm : m.Sound f) (hm' : m'.Sound f)
    (hnow : m'.now = m.now) :
    (m'.expirePlayer player).2 = (m.expirePlayer player).2 ∧
      Arena.Shares player ids (m.afterExpiry player).arena (m'.afterExpiry player).arena := by
  have idle := h.idle_eq hm hm' hnow
  refine ⟨?_, ?_⟩
  · rw [expirePlayer_events hm, expirePlayer_events hm', idle, hnow]
  · show Arena.Shares player ids (m.arena.without _) (m'.arena.without _)
    rw [idle]
    exact h.arena.without fun _ _ => Iff.rfl

/-- A start of the player that is answered plays the same turn, if it gets the same id. -/
theorem opens (h : Alike player ids m m') (hm : m.Sound f) (hm' : m'.Sound f)
    (hnow : m'.now = m.now) {ps : Participants} (hplayer : ps.player.id = player)
    (hnext : m'.forum.ids.next = m.forum.ids.next) {providerId : Option String} {p : Provider}
    {tree : Tree} {play : Play} {r : Response} (ho : m.Opens ps providerId p tree play r) :
    m'.Opens ps providerId p tree play r := by
  subst hplayer
  have room : m'.liveCount ps.player.id < m'.config.maxConversationsPerPlayer := by
    rw [h.liveCount_eq hm hm' hnow, h.setup.config, liveCount, ← count_afterExpiry hm]
    exact ho.room
  have begins := ho.begins
  rw [← h.turn_eq hnow] at begins
  refine ⟨?_, (h.resolve_eq _ _).trans ho.resolve, ho.mapped, ?_⟩
  · rw [count_afterExpiry hm']
    exact room
  · rw [Provider.newConversation, hnext, show m'.forum.now = m.forum.now from hnow]
    exact begins

theorem start_own (h : Alike player ids m m') (hm : m.Sound f) (hm' : m'.Sound f)
    (hnow : m'.now = m.now) {ps : Participants} (hplayer : ps.player.id = player)
    (providerId : Option String)
    (hnext : ∀ r, (m.start ps providerId).result.response = .ok r →
      m'.forum.ids.next = m.forum.ids.next ∧ m.forum.ids.next ∈ ids) :
    InStep player ids (m.start ps providerId) (m'.start ps providerId) := by
  obtain ⟨hevents, expired⟩ := h.expirePlayer hm hm' hnow
  cases hr : (m.start ps providerId).result.response with
  | error e =>
    have declined := declines_of_error hm hr
    rw [declined.start_eq hm, (h.declines hm hm' hnow hplayer declined).start_eq hm']
    subst hplayer
    exact ⟨rfl, hevents, expired⟩
  | ok r =>
    obtain ⟨hids, hmem⟩ := hnext r hr
    obtain ⟨p, tree, play, opens⟩ := start_ok hm hr
    have opens' := h.opens hm hm' hnow hplayer hids opens
    have hid := opens.id_eq hm
    have howner : play.conversation.playerId = ps.player.id := (opens.played hm).continues.playerId
    subst hplayer
    refine ⟨?_, ?_, ?_⟩
    · rw [opens.start_eq, opens'.start_eq]
      rfl
    · -- The announcement of a start takes nothing from the manager but the id and the time.
      have started : p.startEvent (m'.afterExpiry ps.player.id).forum ps tree =
          p.startEvent (m.afterExpiry ps.player.id).forum ps tree := by
        rw [Provider.startEvent, Provider.startEvent, Provider.newConversation,
          Provider.newConversation]
        rw [show (m'.afterExpiry ps.player.id).forum.ids.next = m.forum.ids.next from hids,
          show (m'.afterExpiry ps.player.id).forum.now = m.forum.now from hnow]
        rfl
      rw [opens.events_eq, opens'.events_eq, started, hevents]
    · rw [opens.arena_eq, opens'.arena_eq]
      split
      · exact expired.insert (by simp [howner, hid, hmem])
      · exact expired

/-- What another player's start ends first is that player's. -/
theorem expirePlayer_other (h : Alike player ids m m') (hm : m.Sound f) {other : String}
    (hother : other ≠ player) :
    (∀ e ∈ (m.expirePlayer other).2, e.conversationId ∉ ids) ∧
      Arena.Shares player ids (m.afterExpiry other).arena m'.arena := by
  have idle : ∀ c ∈ m.idle other, c.id ∉ ids := by
    intro c hc hid
    obtain ⟨hget, howner, -⟩ := (mem_idle hm).mp hc
    exact hother (howner.symm.trans ((h.arena.left c.id c hget).mpr hid))
  refine ⟨fun e he => ?_, h.arena.apart (h.arena.left.without _) fun id hid => ?_⟩
  · rw [expirePlayer_events hm] at he
    obtain ⟨c, hc, rfl⟩ := List.mem_map.mp he
    exact idle c hc
  · have hnot : id ∉ (m.idle other).map Conversation.id := by
      intro hmem
      obtain ⟨c, hc, rfl⟩ := List.mem_map.mp hmem
      exact idle c hc hid
    show (m.arena.without _).get? id = m.arena.get? id
    rw [Arena.get?_without, if_neg hnot]

theorem start_other (h : Alike player ids m m') (hm : m.Sound Context.ids) {ps : Participants}
    (hplayer : ps.player.id ≠ player) (providerId : Option String)
    (hnext : ∀ r, (m.start ps providerId).result.response = .ok r → m.forum.ids.next ∉ ids) :
    Aside player ids (m.start ps providerId) m' := by
  obtain ⟨quiet, expired⟩ := h.expirePlayer_other hm hplayer
  cases hr : (m.start ps providerId).result.response with
  | error e =>
    rw [start_refused hm hr]
    exact ⟨quiet, expired⟩
  | ok r =>
    have hmem := hnext r hr
    obtain ⟨p, tree, play, opens⟩ := start_ok hm hr
    have played := opens.played hm
    have hid := opens.id_eq hm
    have howner : play.conversation.playerId = ps.player.id := played.continues.playerId
    refine ⟨fun e he => ?_, ?_⟩
    · rw [opens.events_eq] at he
      rcases List.mem_append.mp he with he | he
      · exact quiet e he
      · rcases List.mem_cons.mp he with rfl | he
        · exact hmem
        · intro hids
          have hne : m.forum.ids.next ≠ e.conversationId := fun heq => hmem (heq ▸ hids)
          exact played.others hne e he rfl
    · rw [opens.arena_eq]
      split
      · exact expired.insert_other (howner ▸ hplayer) (hid ▸ hmem)
      · exact expired

/-! ### Lines of input -/

theorem refuses (h : Alike player ids m m') (hnow : m'.now = m.now) {ps : Participants}
    {id : String} (hid : id ∈ ids) {e : DialogueError} (he : m.Refuses ps id e) :
    m'.Refuses ps id e := by
  have hget := h.arena.same id hid
  have treeOf (c : Conversation) : m'.treeOf? c = m.treeOf? c := by
    rw [treeOf?, treeOf?, h.setup.providers]
  have expired (c : Conversation) : c.isExpired m'.now m'.timeout = c.isExpired m.now m.timeout := by
    rw [hnow, h.timeout_eq]
  cases he with
  | absent hc => exact .absent (hget.trans hc)
  | stranger hc howner => exact .stranger (hget.trans hc) howner
  | lapsed hc howner hidle => exact .lapsed (hget.trans hc) howner ((expired _).trans hidle)
  | treeless hc howner hlive htree =>
    exact .treeless (hget.trans hc) howner ((expired _).trans hlive) ((treeOf _).trans htree)
  | nodeless hc howner hlive htree hn =>
    exact .nodeless (hget.trans hc) howner ((expired _).trans hlive) ((treeOf _).trans htree) hn

theorem proceeds (h : Alike player ids m m') (hnow : m'.now = m.now) {ps : Participants}
    {id input : String} (hid : id ∈ ids) {c : Conversation} {p : Provider} {tree : Tree}
    {n : Node} {play : Play} {r : Response}
    (hp : m.Proceeds ps id input c p tree n play r) :
    m'.Proceeds ps id input c p tree n play r := by
  refine ⟨(h.arena.same id hid).trans hp.held, hp.owner, ?_, h.setup.providers ▸ hp.provider,
    hp.installed, hp.node, ?_⟩
  · rw [hnow, h.timeout_eq]
    exact hp.live
  · rw [h.turn_eq hnow, hnow]
    exact hp.advances

theorem advance_own (h : Alike player ids m m') (hm : m.Sound f) (hm' : m'.Sound f)
    (hnow : m'.now = m.now) (ps : Participants) {id : String} (hid : id ∈ ids) (input : String) :
    InStep player ids (m.advance ps id input) (m'.advance ps id input) := by
  have advanced := advance_cases hm ps id input
  have advanced' := advance_cases hm' ps id input
  cases hr : (m.advance ps id input).result.response with
  | error e =>
    have hr' := (advanced'.error_iff e).mpr (h.refuses hnow hid ((advanced.error_iff e).mp hr))
    -- Of all refusals, only a timeout changes anything.
    by_cases htimeout : e = .timeout id
    · subst htimeout
      obtain ⟨c, hc, hreply⟩ := advanced.timedOut hr
      obtain ⟨c', hc', hreply'⟩ := advanced'.timedOut hr'
      obtain rfl : c' = c := Option.some.inj (hc'.symm.trans ((h.arena.same id hid).trans hc))
      rw [hreply, hreply', hnow]
      exact ⟨rfl, rfl, h.arena.remove id⟩
    · rw [advanced.refused hr htimeout, advanced'.refused hr' htimeout]
      exact ⟨rfl, rfl, h.arena⟩
  | ok r =>
    obtain ⟨c, p, tree, n, play, proceeds⟩ := advance_ok hm hr
    have played := proceeds.played hm
    have same : play.conversation.id = c.id := played.continues.id
    replace same := same.trans (hm.arena.id_eq proceeds.held)
    rw [proceeds.advance_eq hm, (h.proceeds hnow hid proceeds).advance_eq hm']
    refine ⟨rfl, rfl, h.arena.settle (same ▸ hid) (same ▸ proceeds.held) ?_⟩
    exact played.continues.playerId

theorem advance_other (h : Alike player ids m m') (hm : m.Sound Context.ids) {ps : Participants}
    (hplayer : ps.player.id ≠ player) (id input : String) :
    Aside player ids (m.advance ps id input) m' := by
  have advanced := advance_cases hm ps id input
  -- What another player's line of input reaches is that player's.
  have other {c : Conversation} (hc : m.arena.get? id = some c)
      (howner : c.playerId = ps.player.id) : id ∉ ids := by
    intro hid
    exact hplayer (howner.symm.trans ((h.arena.left id c hc).mpr hid))
  generalize hreply : m.advance ps id input = reply at advanced
  cases advanced with
  | absent | stranger | treeless | nodeless =>
    exact ⟨fun e he => absurd he List.not_mem_nil, h.arena⟩
  | @lapsed c hc howner =>
    have address : c.id ∉ ids := (hm.arena.id_eq hc) ▸ other hc howner
    refine ⟨fun e he => ?_, h.arena.remove_other (other hc howner)⟩
    obtain rfl := List.mem_singleton.mp he
    exact address
  | @turned c p tree n play r hc howner _ _ _ _ hplayed =>
    have address : c.id ∉ ids := (hm.arena.id_eq hc) ▸ other hc howner
    have same : play.conversation.id = c.id := hplayed.continues.id
    have held : m.arena.get? play.conversation.id = some c := by
      rw [same, hm.arena.id_eq hc]
      exact hc
    refine ⟨fun e he hids => ?_, h.arena.settle_other (same ▸ address) held
      hplayed.continues.playerId⟩
    have hne : c.id ≠ e.conversationId := fun heq => address (heq ▸ hids)
    exact hplayed.others hne e he rfl

/-! ### Ends -/

theorem finish_own (h : Alike player ids m m') (hm : m.Sound f) (hm' : m'.Sound f)
    (hnow : m'.now = m.now) {id : String} (hid : id ∈ ids) :
    InStep player ids (m.finish id) (m'.finish id) := by
  have hget := h.arena.same id hid
  cases hc : m.arena.get? id with
  | none =>
    rw [finish_absent hc, finish_absent (hget.trans hc)]
    exact ⟨rfl, rfl, h.arena⟩
  | some c =>
    rw [finish_held hm hc, finish_held hm' (hget.trans hc), hnow]
    exact ⟨rfl, rfl, h.arena.remove id⟩

theorem finish_other (h : Alike player ids m m') (hm : m.Sound f) {id : String}
    (hid : id ∉ ids) : Aside player ids (m.finish id) m' := by
  cases hc : m.arena.get? id with
  | none =>
    rw [finish_absent hc]
    exact ⟨fun e he => absurd he List.not_mem_nil, h.arena⟩
  | some c =>
    have address : c.id ∉ ids := (hm.arena.id_eq hc) ▸ hid
    rw [finish_held hm hc]
    refine ⟨fun e he => ?_, h.arena.remove_other hid⟩
    obtain rfl := List.mem_singleton.mp he
    exact address

/-! ### Handing over -/

theorem switchProvider_own (h : Alike player ids m m') (hnow : m'.now = m.now) {id : String}
    (hid : id ∈ ids) (providerId : String) :
    InStep player ids (m.switchProvider id providerId) (m'.switchProvider id providerId) := by
  rw [switchProvider, switchProvider, h.setup.providers, h.arena.same id hid]
  cases m.providers.get? providerId with
  | none => exact ⟨rfl, rfl, h.arena⟩
  | some p =>
    cases hc : m.arena.get? id with
    | none => exact ⟨rfl, rfl, h.arena⟩
    | some c =>
      simp only
      split
      · exact ⟨rfl, rfl, h.arena⟩
      · split
        · exact ⟨rfl, rfl, h.arena⟩
        · rw [hnow]
          exact ⟨rfl, rfl, h.arena.update hid hc rfl⟩

theorem switchProvider_other (h : Alike player ids m m') (hm : m.Sound f) {id : String}
    (hid : id ∉ ids) (providerId : String) :
    Aside player ids (m.switchProvider id providerId) m' := by
  have switched := switchProvider_cases m id providerId
  generalize m.switchProvider id providerId = reply at switched
  cases switched with
  | refused | same => exact ⟨fun e he => absurd he List.not_mem_nil, h.arena⟩
  | @moved c p hc =>
    have address : c.id ∉ ids := (hm.arena.id_eq hc) ▸ hid
    refine ⟨fun e he => ?_, h.arena.update_other hid hc rfl⟩
    obtain rfl := List.mem_singleton.mp he
    exact address

/-! ### Cleaning up -/

/-- A cleanup ends idle conversations of anybody, so only what is heard of the player's is the
same. -/
theorem cleanup (h : Alike player ids m m') (hm : m.Sound f) (hm' : m'.Sound f)
    (hnow : m'.now = m.now) :
    heard ids m'.cleanup.events = heard ids m.cleanup.events ∧
      Arena.Shares player ids m.cleanup.manager.arena m'.cleanup.manager.arena := by
  have stale := h.arena.staleIds_eq hm.arena hm'.arena m.now m.timeout
  -- Ends are announced in the order of the ids, which leaving out other ids does not change.
  constructor
  · rw [cleanup_endEvents hm, cleanup_endEvents hm', heard_endEvents hm, heard_endEvents hm',
      hnow, h.timeout_eq, stale, endEvents, endEvents, hnow]
    refine List.filterMap_congr fun id hid => ?_
    have hmem : id ∈ ids := by simpa using (List.mem_filter.mp hid).2
    rw [h.arena.same id hmem]
  · rw [cleanup_manager, cleanup_manager, hnow, h.timeout_eq]
    exact h.arena.without fun id hid => h.arena.staleIds_iff hm.arena hm'.arena _ _ hid

end Alike

end Manager

end Parley
