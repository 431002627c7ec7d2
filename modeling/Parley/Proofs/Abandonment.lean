/-
Conversations that nothing typed at the console can reach.

The console keeps one current conversation beside the arena of its manager, and nothing that is
typed is about any other:

* `Console.stranded`, `Console.leftBehind` — the conversations of the player that are not
  current, and the one way to leave one behind: to begin another before it has ended;
* `Console.mem_stranded_leave`, `Console.mem_stranded_say`, `Console.stranded_talk` — no other
  line strands a conversation, and none brings one back;
* `Console.stranded_session` — so in a session, whatever is typed;
* `Console.stranded_remains` — what is stranded stays so until it has gone idle and another
  conversation is asked for;
* `Console.Roomy`, `Console.Roomy.session` — there is always room for one more;
* `Console.abandonment` — all of it, after every session.

Design notes: a conversation that is left behind is not ended, and counts against the quota.
What keeps the player from being locked out is that the last one to begin is not left behind.
-/
import Parley.Proofs.Console
import Parley.Proofs.Expiry
import Parley.Proofs.Manager.Held
import Parley.Proofs.Preparation
import Parley.Sampling

namespace Parley

/-! ### What a call does to the other conversations -/

namespace Manager

variable {α : Type} {f : Context → α} {m : Manager} {ps : Participants} {id id' input : String}
  {c : Conversation} {p : Provider} {tree : Tree} {n : Node} {play : Play} {r : Response}
  {e : DialogueError}

theorem get?_finish (hm : m.Sound f) (id id' : String) :
    (m.finish id).manager.arena.get? id' = if id = id' then none else m.arena.get? id' := by
  cases hc : m.arena.get? id with
  | none =>
    rw [finish_absent hc]
    split
    · rename_i hid
      exact hid ▸ hc
    · rfl
  | some c =>
    rw [finish_held hm hc]
    exact Arena.get?_remove _ _ _

theorem get?_advance_other (hm : m.Sound f) (hne : id ≠ id') :
    (m.advance ps id input).manager.arena.get? id' = m.arena.get? id' := by
  cases hr : (m.advance ps id input).result.response with
  | error e =>
    have advanced := advance_cases hm ps id input
    -- No other error takes anything out.
    by_cases htimeout : e = .timeout id
    · subst htimeout
      obtain ⟨_, -, hreply⟩ := advanced.timedOut hr
      rw [hreply]
      exact (Arena.get?_remove _ _ _).trans (if_neg hne)
    · rw [advanced.refused hr htimeout]
      rfl
  | ok r =>
    obtain ⟨c, p, tree, n, play, proceeds⟩ := advance_ok hm hr
    have present : m.arena.contains play.conversation.id = true := by
      rw [proceeds.id_eq hm]
      exact Arena.contains_of_get? proceeds.held
    rw [proceeds.advance_eq hm]
    show (m.arena.settle play.conversation).get? id' = _
    rw [Arena.get?_settle present, proceeds.id_eq hm, if_neg hne]

/-- After an error that is final the conversation is not held, if it had not lost its place. -/
theorem advance_final (hm : m.Sound f) (hplayable : m.Playable id)
    (hr : (m.advance ps id input).result.response = .error e) (hfinal : Console.isFinal e = true) :
    (m.advance ps id input).manager.arena.get? id = none := by
  have advanced := advance_cases hm ps id input
  have placed := hplayable.advance_ne hm ps input
  generalize m.advance ps id input = reply at advanced placed hr
  cases advanced with
  | absent hc => exact hc
  | stranger =>
    obtain rfl := Except.error.inj hr
    exact absurd hfinal (by simp [Console.isFinal, DialogueError.kind])
  | lapsed => exact (Arena.get?_remove _ _ _).trans (if_pos rfl)
  | @treeless c => exact absurd rfl (placed c.treeId "").1
  | @nodeless c => exact absurd rfl (placed c.treeId c.currentNodeId).2
  | turned => exact absurd hr (by simp [settle, Provider.turned])

theorem Proceeds.gone (hm : m.Sound f) (h : m.Proceeds ps id input c p tree n play r)
    (hcomplete : r.isComplete = true) : (m.advance ps id input).manager.arena.get? id = none := by
  have ended := (h.played hm).shows.isActive_of_complete hcomplete
  rw [h.get?_eq hm, ended, if_neg Bool.false_ne_true]

end Manager

namespace Console

variable {c : Console} {npcId input id : String} {npc : Npc} {r : Response} {d : Conversation}

/-! ### What a line leaves behind -/

def currentId? (c : Console) : Option String := c.current.map Prod.fst

/-- The conversations of the player that are going on out of reach: they are not current. -/
def stranded (c : Console) : List Conversation :=
  (c.manager.conversationsOf "local").filter fun d => c.currentId? != some d.id

/-- The conversation that is left behind when another begins and goes on, if it has not gone
idle by then. -/
def leftBehind (c : Console) : Command → Option String
  | .talk npcId =>
    let reply := c.manager.start (c.facing npcId) none
    match reply.result.response with
    | .ok r => if r.isComplete then none else c.currentId?.filter reply.manager.arena.contains
    | .error _ => none
  | _ => none

theorem leftBehind_talk_iff :
    c.leftBehind (.talk npcId) = some id ↔
      ∃ r, (c.manager.start (c.facing npcId) none).result.response = .ok r ∧
        r.isComplete = false ∧ c.currentId? = some id ∧
        (c.manager.start (c.facing npcId) none).manager.arena.contains id = true := by
  rw [leftBehind]
  cases hr : (c.manager.start (c.facing npcId) none).result.response with
  | error e => simp
  | ok r => cases hopen : r.isComplete <;> simp [hopen, Option.filter_eq_some_iff]

theorem mem_stranded (h : c.Sound) :
    d ∈ c.stranded ↔
      c.manager.arena.get? d.id = some d ∧ d.playerId = "local" ∧ c.currentId? ≠ some d.id := by
  rw [stranded, List.mem_filter, bne_iff_ne, Manager.conversationsOf,
    Arena.mem_ofPlayer_held h.manager.arena, and_assoc]

theorem currentId?_leave (c : Console) : c.leave.console.currentId? = none := by
  rw [leave, currentId?]
  cases hcurrent : c.current with
  | none => simp [hcurrent]
  | some current => rfl

/-- What is held for the player is listed. -/
theorem Sound.exists_conversation (h : c.Sound)
    (hheld : (c.manager.arena.get? id).map Conversation.playerId = some "local") :
    ∃ d ∈ c.manager.conversationsOf "local", d.id = id := by
  obtain ⟨d, hd, hplayer⟩ := Option.map_eq_some_iff.mp hheld
  obtain rfl := h.manager.arena.id_eq hd
  exact ⟨d, (Arena.mem_ofPlayer_held h.manager.arena).mpr ⟨hd, hplayer⟩, rfl⟩

/-- What is left ends, and was not stranded. -/
theorem mem_stranded_leave (h : c.Sound) : d ∈ c.leave.console.stranded ↔ d ∈ c.stranded := by
  have left : c.leave.console.Sound := h.obey .bye
  rw [mem_stranded left, mem_stranded h, leave, currentId?, currentId?]
  cases hcurrent : c.current with
  | none => simp [hcurrent]
  | some current =>
    obtain ⟨id, npc⟩ := current
    have ended := Manager.get?_finish h.manager id d.id
    by_cases hid : id = d.id
    · subst hid
      rw [if_pos rfl] at ended
      simp [ended]
    · rw [if_neg hid] at ended
      simp [ended, hid]

/-- The conversation that is spoken to stays current, unless it is gone. -/
theorem say_current (h : c.Sound) (hcurrent : c.current = some (id, npc)) (input : String) :
    (c.say input).console.currentId? = some id ∨
      (c.say input).console.currentId? = none ∧
        (c.say input).console.manager.arena.get? id = none := by
  cases hr : (c.manager.advance { player := c.player, npc } id input).result.response with
  | error e =>
    rw [say_error hcurrent hr]
    cases hfinal : isFinal e with
    | true => exact .inr ⟨rfl, Manager.advance_final h.manager (h.playable id) hr hfinal⟩
    | false =>
      left
      simp [currentId?, hcurrent]
  | ok r =>
    rw [say_ok hcurrent hr]
    obtain ⟨_, _, _, _, _, proceeds⟩ := Manager.advance_ok h.manager hr
    cases hcomplete : r.isComplete with
    | true => exact .inr ⟨rfl, proceeds.gone h.manager hcomplete⟩
    | false =>
      left
      simp [currentId?, hcurrent]

/-- What is said goes to the current conversation alone. -/
theorem mem_stranded_say (h : c.Sound) :
    d ∈ (c.say input).console.stranded ↔ d ∈ c.stranded := by
  have spoken : (c.say input).console.Sound := h.obey (.say input)
  rw [mem_stranded spoken, mem_stranded h]
  cases hcurrent : c.current with
  | none => rw [say, hcurrent]
  | some current =>
    obtain ⟨id, npc⟩ := current
    have said : (c.say input).console.manager =
        (c.manager.advance { player := c.player, npc } id input).manager := by
      have called := c.obey_manager (.say input)
      rw [call?, hcurrent] at called
      exact called
    have before : c.currentId? = some id := by rw [currentId?, hcurrent]; rfl
    have after := say_current h hcurrent input
    rw [said] at after ⊢
    rw [before]
    -- What is spoken to is current before, and so stranded neither before nor afterwards.
    by_cases hid : id = d.id
    · subst hid
      rcases after with hstays | ⟨-, hgone⟩
      · simp [hstays]
      · simp [hgone]
    · rw [Manager.get?_advance_other h.manager hid]
      rcases after with hstays | ⟨hnone, -⟩
      · rw [hstays]
      · rw [hnone]
        simp [hid]

/-- What begins and goes on is current then, under the next id. -/
theorem talk_currentId? (h : c.Sound) (npcId : String) :
    (c.talk npcId).console.currentId? =
      match (c.manager.start (c.facing npcId) none).result.response with
      | .ok r => if r.isComplete then c.currentId? else some c.manager.forum.ids.next
      | .error _ => c.currentId? := by
  cases hr : (c.manager.start (c.facing npcId) none).result.response with
  | error e =>
    rw [talk_error hr]
    rfl
  | ok r =>
    obtain ⟨p, tree, play, opens⟩ := Manager.start_ok h.manager hr
    rw [talk_ok hr, ← opens.conversationId_eq h.manager]
    cases hopen : r.isComplete <;> simp [currentId?, hopen]

/-- Beginning a conversation leaves the current one behind, and no other. -/
theorem stranded_talk (h : c.Sound) (hd : d ∈ (c.talk npcId).console.stranded) :
    d ∈ c.stranded ∨ c.leftBehind (.talk npcId) = some d.id := by
  obtain ⟨hheld, hplayer, hother⟩ := (mem_stranded (h.talk npcId)).mp hd
  rw [talk_currentId? h] at hother
  rw [talk_manager] at hheld
  cases hr : (c.manager.start (c.facing npcId) none).result.response with
  | error e =>
    simp only [hr] at hother
    rw [Manager.start_refused h.manager hr] at hheld
    exact .inl ((mem_stranded h).mpr ⟨(Arena.get?_without_cases hheld).2, hplayer, hother⟩)
  | ok r =>
    simp only [hr] at hother
    have contained := Arena.contains_of_get? hheld
    obtain ⟨p, tree, play, opens⟩ := Manager.start_ok h.manager hr
    have shows := (opens.played h.manager).shows
    rw [opens.arena_eq] at hheld
    cases hopen : r.isComplete with
    | true =>
      rw [if_pos hopen] at hother
      rw [if_neg (by simp [shows.isActive_of_complete hopen])] at hheld
      exact .inl ((mem_stranded h).mpr ⟨(Arena.get?_without_cases hheld).2, hplayer, hother⟩)
    | false =>
      -- What has begun is current, so it is another one that is stranded.
      rw [if_neg (by simp [hopen]), ← opens.id_eq h.manager] at hother
      rw [if_pos (shows.isActive_of_open hopen), Arena.get?_insert,
        if_neg fun heq => hother (congrArg some heq)] at hheld
      by_cases hcurrent : c.currentId? = some d.id
      · exact .inr (leftBehind_talk_iff.mpr ⟨r, hr, hopen, hcurrent, contained⟩)
      · exact .inl ((mem_stranded h).mpr ⟨(Arena.get?_without_cases hheld).2, hplayer, hcurrent⟩)

theorem stranded_obey (h : c.Sound) {command : Command}
    (hd : d ∈ (c.obey command).console.stranded) :
    d ∈ c.stranded ∨ c.leftBehind command = some d.id := by
  cases command with
  | blank | quit => exact .inl hd
  | bye => exact .inl ((mem_stranded_leave h).mp hd)
  | talk npcId => exact stranded_talk h hd
  | say input => exact .inl ((mem_stranded_say h).mp hd)

/-- The ids of the conversations that a session leaves behind, one after another. -/
def abandoned (c : Console) : List (Instant × String) → List String
  | [] => []
  | (now, line) :: rest =>
    let printed := (c.atTime now).step line
    ((c.atTime now).leftBehind (.ofLine line)).toList ++
      if printed.hasQuit then [] else printed.console.abandoned rest

theorem stranded_session (h : c.Sound) {lines : List (Instant × String)}
    (hd : d ∈ (c.session lines).stranded) : d ∈ c.stranded ∨ d.id ∈ c.abandoned lines := by
  induction lines generalizing c with
  | nil => exact .inl hd
  | cons typed rest ih =>
    obtain ⟨now, line⟩ := typed
    have sound := (h.atTime now).step line
    -- What the line strands was stranded before, or is the one that it leaves behind.
    have typed (hd : d ∈ ((c.atTime now).step line).console.stranded) :
        d ∈ c.stranded ∨ (c.atTime now).leftBehind (.ofLine line) = some d.id := by
      rw [step_eq] at hd
      exact stranded_obey (h.atTime now) hd
    rw [abandoned, List.mem_append, Option.mem_toList]
    rw [session] at hd
    split at hd
    · exact (typed hd).imp_right .inl
    · rename_i hquit
      rw [if_neg hquit]
      rcases ih sound hd with hbefore | hlater
      · exact (typed hbefore).imp_right .inl
      · exact .inr (.inr hlater)

/-! ### What is stranded remains -/

/-- What a line that begins a conversation does to another. -/
theorem talk_held (h : c.Sound) (hfresh : c.manager.Fresh)
    (hheld : c.manager.arena.get? d.id = some d) (hplayer : d.playerId = "local")
    (npcId : String) :
    (c.manager.start (c.facing npcId) none).manager.arena.get? d.id =
      if d.isExpired c.manager.now c.manager.timeout then none else some d := by
  have owner : (c.facing npcId).player.id = d.playerId := h.player.trans hplayer.symm
  obtain ⟨hgone, hspared⟩ :=
    Manager.start_timesOut h.manager hheld owner none (hfresh.unheld _ (Nat.le_refl _))
  cases hidle : d.isExpired c.manager.now c.manager.timeout with
  | true => exact (hgone.mpr hidle).gone
  | false => exact (hspared.mpr hidle).held

/-- A conversation is stranded by the beginning of another, or stays so, exactly if it has not
gone idle. -/
theorem mem_stranded_talk (h : c.Sound) (hfresh : c.manager.Fresh)
    (hheld : c.manager.arena.get? d.id = some d) (hplayer : d.playerId = "local") :
    d ∈ (c.talk npcId).console.stranded ↔
      d.isExpired c.manager.now c.manager.timeout = false ∧
        (c.currentId? ≠ some d.id ∨ c.leftBehind (.talk npcId) = some d.id) := by
  have kept := talk_held h hfresh hheld hplayer npcId
  have new : c.manager.forum.ids.next ≠ d.id :=
    hfresh.spent (Arena.contains_of_get? hheld) _ (Nat.le_refl _)
  rw [mem_stranded (h.talk npcId), talk_manager, talk_currentId? h, leftBehind_talk_iff,
    Arena.contains_eq_isSome, kept]
  cases d.isExpired c.manager.now c.manager.timeout with
  | true => simp
  | false =>
    cases hr : (c.manager.start (c.facing npcId) none).result.response with
    | error e => simp [hplayer]
    | ok r => cases hopen : r.isComplete <;> simp [hplayer, hopen, new, ← imp_iff_not_or]

/-- What is left behind is stranded. -/
theorem stranded_of_leftBehind (h : c.Sound) (hfresh : c.manager.Fresh)
    (hd : d ∈ c.manager.conversationsOf "local") {command : Command}
    (hleft : c.leftBehind command = some d.id) : d ∈ (c.obey command).console.stranded := by
  obtain ⟨hheld, hplayer⟩ := (Arena.mem_ofPlayer_held h.manager.arena).mp hd
  cases command with
  | talk npcId =>
    refine (mem_stranded_talk h hfresh hheld hplayer).mpr ⟨?_, .inr hleft⟩
    obtain ⟨r, -, -, -, hcontains⟩ := leftBehind_talk_iff.mp hleft
    rw [Arena.contains_eq_isSome, talk_held h hfresh hheld hplayer npcId] at hcontains
    cases hidle : d.isExpired c.manager.now c.manager.timeout with
    | true =>
      rw [hidle] at hcontains
      exact absurd hcontains (by simp)
    | false => rfl
  | _ => exact absurd hleft (by simp [leftBehind])

/-- Of a stranded conversation nothing is heard any more, until it has gone idle and the player
begins another. -/
theorem stranded_remains (h : c.Sound) (hfresh : c.manager.Fresh) (hd : d ∈ c.stranded)
    (command : Command) :
    d ∈ (c.obey command).console.stranded ↔
      ¬ ((∃ npcId, command = .talk npcId) ∧
        d.isExpired c.manager.now c.manager.timeout = true) := by
  cases command with
  | blank | quit => exact iff_of_true hd (by simp)
  | bye => exact iff_of_true ((mem_stranded_leave h).mpr hd) (by simp)
  | say input => exact iff_of_true ((mem_stranded_say h).mpr hd) (by simp)
  | talk npcId =>
    obtain ⟨hheld, hplayer, hother⟩ := (mem_stranded h).mp hd
    refine (mem_stranded_talk h hfresh hheld hplayer).trans ?_
    simp [hother]

/-! ### Room for another -/

/-- There is room for one more, or there is none at all and nothing is stranded. -/
def Roomy (c : Console) : Prop :=
  c.stranded = [] ∨ c.stranded.length < c.manager.config.maxConversationsPerPlayer

/-- What has just begun takes up room of its own. -/
theorem length_stranded_talk (h : c.Sound)
    (hr : (c.manager.start (c.facing npcId) none).result.response = .ok r)
    (hopen : r.isComplete = false) :
    (c.talk npcId).console.stranded.length < c.manager.config.maxConversationsPerPlayer := by
  obtain ⟨p, tree, play, opens⟩ := Manager.start_ok h.manager hr
  have owner : play.conversation.playerId = "local" :=
    (opens.played h.manager).continues.playerId.trans h.player
  have current : (c.talk npcId).console.currentId? = some play.conversation.id := by
    have current := talk_currentId? h npcId
    rw [hr] at current
    simpa [hopen, opens.id_eq h.manager] using current
  have arena := opens.arena_eq
  rw [if_pos ((opens.played h.manager).shows.isActive_of_open hopen)] at arena
  -- It is listed with the others, of which it alone is current.
  have listed : play.conversation ∈ (c.talk npcId).console.manager.conversationsOf "local" := by
    refine (Arena.mem_ofPlayer_held (h.talk npcId).manager.arena).mpr ⟨?_, owner⟩
    rw [talk_manager, arena, Arena.get?_insert, if_pos rfl]
  have among : (c.talk npcId).console.stranded.length <
      ((c.talk npcId).console.manager.conversationsOf "local").length :=
    List.length_filter_lt_length_iff_exists.mpr ⟨play.conversation, listed, by simp [current]⟩
  have room := opens.room
  have count := Arena.countOfPlayer_insert_le
    (c.manager.afterExpiry (c.facing npcId).player.id).arena play.conversation "local"
  rw [show (c.facing npcId).player.id = "local" from h.player] at room count arena
  rw [Manager.length_conversationsOf, talk_manager, arena] at among
  rw [owner, beq_self_eq_true, Bool.toNat_true] at count
  omega

theorem Roomy.obey (hroom : c.Roomy) (h : c.Sound) (command : Command) :
    (c.obey command).console.Roomy := by
  rw [Roomy, h.obey_config command]
  cases hleft : c.leftBehind command with
  | some id =>
    cases command with
    | talk npcId =>
      obtain ⟨r, hr, hopen, -⟩ := leftBehind_talk_iff.mp hleft
      exact .inr (length_stranded_talk h hr hopen)
    | _ => exact absurd hleft (by simp [leftBehind])
  | none =>
    -- Nothing is stranded that was not, and nothing is listed twice.
    have old : (c.obey command).console.stranded ⊆ c.stranded := fun d hd =>
      (stranded_obey h hd).resolve_right (by simp [hleft])
    have distinct : (c.obey command).console.stranded.Nodup :=
      (((h.obey command).manager.arena.nodup_ofPlayer "local").of_map _).filter _
    refine hroom.imp (fun hempty => ?_) (fun hlt => ?_)
    · rw [hempty] at old
      exact List.subset_nil.mp old
    · exact Nat.lt_of_le_of_lt (List.subperm_of_subset distinct old).length_le hlt

theorem Roomy.atTime (hroom : c.Roomy) (now : Instant) : (c.atTime now).Roomy := hroom

/-- A player who is talking to no one can begin a conversation, unless none are allowed. -/
theorem Roomy.start_ne (hroom : c.Roomy) (h : c.Sound) (hcurrent : c.currentId? = none)
    (hlimit : 0 < c.manager.config.maxConversationsPerPlayer) (npcId playerId : String)
    (limit : Nat) :
    (c.manager.start (c.facing npcId) none).result.response ≠
      .error (.quotaExceeded playerId limit) := by
  intro hrefused
  have all : c.stranded = c.manager.conversationsOf "local" := by
    rw [stranded, hcurrent]
    exact List.filter_eq_self.mpr fun _ _ => rfl
  cases Manager.declines_of_error h.manager hrefused with
  | full hfull =>
    have count : c.manager.liveCount "local" ≤ c.stranded.length := all ▸ List.countP_le_length
    replace hfull : c.manager.config.maxConversationsPerPlayer ≤ c.manager.liveCount "local" :=
      h.player ▸ hfull
    rcases hroom with hempty | hlt
    · rw [hempty, List.length_nil] at count
      omega
    · omega

/-! ### Sessions -/

theorem Roomy.session (hroom : c.Roomy) (h : c.Sound) (lines : List (Instant × String)) :
    (c.session lines).Roomy :=
  h.session_invariant
    (fun _ h now command hroom => (hroom.atTime now).obey (h.atTime now) command) hroom lines

theorem mem_conversationsOf_leave (h : c.Sound)
    (hd : d ∈ c.leave.console.manager.conversationsOf "local") : d ∈ c.stranded := by
  refine (mem_stranded_leave h).mp ?_
  rw [stranded, List.mem_filter, currentId?_leave]
  exact ⟨hd, rfl⟩

/-- Whatever is typed at the console over a manager without a store, and whenever, and whatever
the random conditions draw: a conversation of the player that is going on is the current one, unless it was left behind when another one
began before it had ended.  So after `bye` only such conversations are going on.  They never use
up the quota between them, so that a player who is talking to no one can begin a conversation.
If ids are not given twice, then what is left behind is stranded, and it stays so whatever is
typed, until it has gone idle and the player begins a conversation. -/
theorem abandonment (config : Config) (ids : IdSupply) (now : Instant) (sample : Nat → Float)
    (content : Option Directory) (playerName : String) (lines : List (Instant × String)) :
    let manager : Manager := { Manager.new config ids now none with sample }
    let first := new (manager.launch [] content).1 playerName
    let c := first.session lines
    (∀ d ∈ c.manager.conversationsOf "local",
      c.currentId? = some d.id ∨ d.id ∈ first.abandoned lines) ∧
    (∀ now line, Command.ofLine line = .bye →
      let left := ((c.atTime now).step line).console
      left.currentId? = none ∧
        ∀ d ∈ left.manager.conversationsOf "local", d.id ∈ first.abandoned lines) ∧
    (c.stranded = [] ∨ c.stranded.length < config.maxConversationsPerPlayer) ∧
    (0 < config.maxConversationsPerPlayer → c.currentId? = none → ∀ now npcId limit,
      ((c.atTime now).manager.start ((c.atTime now).facing npcId) none).result.response ≠
        .error (.quotaExceeded "local" limit)) ∧
    (Function.Injective ids.name → ∀ d ∈ c.manager.conversationsOf "local", ∀ now line,
      let next := ((c.atTime now).step line).console
      ((c.atTime now).leftBehind (.ofLine line) = some d.id → d ∈ next.stranded) ∧
      (d ∈ c.stranded → (d ∈ next.stranded ↔
        ¬ ((∃ npcId, Command.ofLine line = .talk npcId) ∧
          c.manager.timeout * 1000000 < now.since d.lastActivity)))) := by
  intro manager first c
  have started : first.Sound := .new config ids now sample content playerName
  have sound : c.Sound := started.session lines
  obtain ⟨hforum, hconfig⟩ :=
    Manager.launch_unsaved (m := manager) rfl [] content
  have limits : c.manager.config = config := (started.config_session lines).trans hconfig
  replace hforum : first.manager.forum = { ids, now, settings := Settings.ofConfig config } :=
    hforum
  -- Without a store nothing is going on before the first line.
  have unheld (id : String) : first.manager.arena.get? id = none := by
    rw [Manager.arena, hforum]
    rfl
  have none_yet : first.stranded = [] := List.eq_nil_iff_forall_not_mem.mpr fun d hd =>
    absurd ((unheld d.id).symm.trans ((mem_stranded started).mp hd).1) (by simp)
  have abandoned (d : Conversation) (hd : d ∈ c.stranded) : d.id ∈ first.abandoned lines :=
    (stranded_session started hd).resolve_left (by simp [none_yet])
  have roomy : c.Roomy := Roomy.session (.inl none_yet) started lines
  refine ⟨fun d hd => ?_, fun now line hbye => ?_, ?_, fun hlimit hcurrent now npcId limit => ?_,
    fun hdistinct d hd now line => ?_⟩
  · by_cases hcurrent : c.currentId? = some d.id
    · exact .inl hcurrent
    · exact .inr (abandoned d (List.mem_filter.mpr ⟨hd, bne_iff_ne.mpr hcurrent⟩))
  · rw [step_eq, hbye]
    exact ⟨currentId?_leave _, fun d hd =>
      abandoned d (mem_conversationsOf_leave (c := c.atTime now) (sound.atTime now) hd)⟩
  · rw [← limits]
    exact roomy
  · rw [← limits] at hlimit
    exact (roomy.atTime now).start_ne (sound.atTime now) hcurrent hlimit npcId "local" limit
  · have fresh : first.manager.Fresh :=
      ⟨hforum ▸ hdistinct, fun n _ => Arena.get?_eq_none_iff.mp (unheld _)⟩
    have later := (started.fresh_session fresh lines).atTime now
    rw [step_eq, ← Manager.isExpired_iff]
    exact ⟨stranded_of_leftBehind (sound.atTime now) later hd,
      fun hstranded => stranded_remains (c := c.atTime now) (sound.atTime now) later hstranded _⟩

end Console

namespace Inn

/-- What is read before the inn opens: the welcome alone. -/
def letter : Directory := Dict.ofList [("welcome.json", .text welcome.toJson.compact)]

def modest : Config := { maxConversationsPerPlayer := 2 }

/-- The inn before it opens, with samples from a seed. -/
def unopened : Manager :=
  { Manager.new modest ids Instant.epoch none with sample := Sampling.sample 0 }

/-- A console in the lobby of the inn. -/
def lobby : Console := .new (unopened.launch [] (some letter)).1 "Ada"

/-- The innkeeper is talked to, and again before that has ended. -/
def twice : List (Instant × String) :=
  [(Instant.epoch, "talk innkeeper"), (Instant.epoch, "talk innkeeper")]

theorem lobby_sound : lobby.Sound := .new modest ids Instant.epoch _ (some letter) "Ada"

theorem letter_trees : letter.load.1 = [welcome] := by
  have read : File.tree (.text welcome.toJson.compact) = .ok welcome :=
    File.tree_eq_ok_iff.mpr welcome_read
  rw [Directory.load, letter, Directory.documents_singleton (by decide), read]
  rfl

/-- The lobby, with the tree in place of the letter that it is read from. -/
theorem lobby_eq :
    lobby = .new (unopened.launch
      [({ sample := unopened.sample } : Provider).adopt welcome] none).1 "Ada" := by
  have prepared : ({ sample := unopened.sample } : Provider).prepare unopened.config (some letter) =
      (({ sample := unopened.sample } : Provider).adopt welcome).prepare unopened.config none := by
    rw [Provider.prepare, Provider.prepare]
    simp only [letter_trees]
    rfl
  rw [lobby, unopened.launch_prepared prepared]

end Inn

namespace Console

/-- The innkeeper is talked to twice, and the second conversation is left.  The first one is left
behind as the second begins, and it is still going on in the end. -/
theorem abandonment_lobby :
    let talking := Inn.lobby.session [(Instant.epoch, "talk innkeeper")]
    let left := Inn.lobby.session (Inn.twice ++ [(Instant.epoch, "bye")])
    let later := left.atTime Instant.epoch
    (∃ d ∈ ((talking.atTime Instant.epoch).step "talk innkeeper").console.stranded, d.id = "") ∧
    (∀ d ∈ (later.step "bye").console.manager.conversationsOf "local", d.id = "") ∧
    (∀ npcId limit, (later.manager.start (later.facing npcId) none).result.response ≠
      .error (.quotaExceeded "local" limit)) ∧
    ∃ d ∈ left.stranded, d ∈ (later.step "talk innkeeper").console.stranded := by
  obtain ⟨begun, behind, abandoned, alone, going, recent, timeout⟩ :
      ((Inn.lobby.session [(Instant.epoch, "talk innkeeper")]).manager.arena.get? "").map
        Conversation.playerId = some "local" ∧
      ((Inn.lobby.session [(Instant.epoch, "talk innkeeper")]).atTime Instant.epoch).leftBehind
        (.ofLine "talk innkeeper") = some "" ∧
      Inn.lobby.abandoned (Inn.twice ++ [(Instant.epoch, "bye")]) = [""] ∧
      (Inn.lobby.session (Inn.twice ++ [(Instant.epoch, "bye")])).currentId? = none ∧
      ((Inn.lobby.session (Inn.twice ++ [(Instant.epoch, "bye")])).manager.arena.get? "").map
        Conversation.playerId = some "local" ∧
      ((Inn.lobby.session (Inn.twice ++ [(Instant.epoch, "bye")])).manager.arena.get? "").map
        Conversation.lastActivity = some Instant.epoch ∧
      (Inn.lobby.session (Inn.twice ++ [(Instant.epoch, "bye")])).manager.timeout = 1800000 := by
    rw [Inn.lobby_eq]
    decide +kernel
  have general :=
    abandonment Inn.modest Inn.ids Instant.epoch (Sampling.sample 0) (some Inn.letter) "Ada"
  simp only [show Console.new (Manager.launch { Manager.new Inn.modest Inn.ids Instant.epoch none
    with sample := Sampling.sample 0 } [] (some Inn.letter)).1 "Ada" = Inn.lobby from rfl] at general
  obtain ⟨-, -, -, -, hbegun⟩ := general [(Instant.epoch, "talk innkeeper")]
  obtain ⟨-, hbye, -, hroom, hstays⟩ := general (Inn.twice ++ [(Instant.epoch, "bye")])
  refine ⟨?_, fun d hd => ?_, ?_, ?_⟩
  · obtain ⟨d, hd, hid⟩ := (Inn.lobby_sound.session _).exists_conversation begun
    exact ⟨d, (hbegun Inn.ids_injective d hd Instant.epoch "talk innkeeper").1
      (behind.trans (congrArg some hid.symm)), hid⟩
  · have left := (hbye Instant.epoch "bye" (by decide)).2 d hd
    rw [abandoned] at left
    exact List.mem_singleton.mp left
  · exact hroom (by decide) alone Instant.epoch
  · have sound := Inn.lobby_sound.session (Inn.twice ++ [(Instant.epoch, "bye")])
    obtain ⟨d, hd, hid⟩ := sound.exists_conversation going
    obtain ⟨hheld, -⟩ := (Arena.mem_ofPlayer_held sound.manager.arena).mp hd
    rw [← hid, hheld] at recent
    have stranded : d ∈ (Inn.lobby.session (Inn.twice ++ [(Instant.epoch, "bye")])).stranded :=
      List.mem_filter.mpr ⟨hd, by rw [alone]; rfl⟩
    refine ⟨d, stranded, ((hstays Inn.ids_injective d hd Instant.epoch "talk innkeeper").2
      stranded).mpr fun ⟨_, hidle⟩ => ?_⟩
    rw [timeout, Option.some.inj recent] at hidle
    exact absurd hidle (by decide +kernel)

/-- A conversation goes on that is not current, and the player who has left the other has one
going on still, which takes up the room of another. -/
theorem abandonment_twice :
    let c := Inn.lobby.session Inn.twice
    let left := (c.step "bye").console
    let next := (left.step "talk innkeeper").console
    (∃ d ∈ c.manager.conversationsOf "local", c.currentId? ≠ some d.id) ∧
    left.manager.conversationsOf "local" ≠ [] ∧
    (next.step "talk innkeeper").lines =
      ["! player local already has 2 active conversations"] := by
  -- Reading the letter is not evaluated again.
  rw [Inn.lobby_eq]
  intro c left next
  have sound : c.Sound := Sound.session (Inn.lobby_eq ▸ Inn.lobby_sound) Inn.twice
  have later : next.Sound := (sound.step "bye").step "talk innkeeper"
  refine ⟨?_, ?_, ?_⟩
  · have going : (c.manager.arena.get? "").map Conversation.playerId = some "local" := by
      decide +kernel
    obtain ⟨d, hd, hid⟩ := sound.exists_conversation going
    have current : c.currentId? = some "i" := by decide +kernel
    refine ⟨d, hd, ?_⟩
    rw [current, hid]
    decide
  · have going : (left.manager.arena.get? "").map Conversation.playerId = some "local" := by
      decide +kernel
    obtain ⟨d, hd, -⟩ := (sound.step "bye").exists_conversation going
    exact List.ne_nil_of_mem hd
  · have limit : next.manager.config.maxConversationsPerPlayer = 2 := by decide +kernel
    have full : 2 ≤ next.manager.liveCount "local" := by
      rw [Manager.liveCount, Manager.conversationsOf, Arena.countP_ofPlayer]
      decide +kernel
    have player : (next.facing "innkeeper").player.id = "local" := later.player
    have refused : (next.manager.start (next.facing "innkeeper") none).result.response =
        .error (.quotaExceeded "local" 2) := by
      rw [← player, ← limit]
      exact (Manager.start_error_iff later.manager).mpr (.full (by rwa [limit, player]))
    have asks : Command.ofLine "talk innkeeper" = .talk "innkeeper" := by decide
    rw [step_eq, asks, obey, talk_error refused]
    rfl

end Console

end Parley
