/-
Content can touch flags and variables, and nothing else.

Whatever the actions of a tree are, and in whatever order a player starts conversations and
goes on with them, all that changes for the player are the flags.

* `Context.backdrop` — what no turn writes, if custom actions write nothing;
* `Effect.mem_onFlagsAll`, `Effect.filter_onFlagsAll` — what a list of actions makes of flags:
  the last one that names a flag decides about it, and the others stay as they are;
* `Conversation.Remains` — of a conversation only variables, place, history, activity and end
  are other ones;
* `Manager.Rounds` — a player goes from call to call;
* `Manager.confinement` — what is left of both after any number of calls.

Design notes: items and quests are announced and left to the caller, so actions that deal with
them change nothing here.
-/
import Parley.Proofs.Manager.Held
import Parley.Proofs.Replay
import Parley.Proofs.Skipping

namespace Parley

/-- A custom action writes nothing, though it may fail. -/
def Hook.Inert (run : Hook) : Prop := ∀ name params ctx, (run name params ctx).1 = ctx

def Provider.Inert (p : Provider) : Prop := ∀ run, p.hook = some run → run.Inert

/-! ### What actions make of flags -/

/-- The flag that an effect sets or clears. -/
def Effect.flag? : Effect → Option String
  | addFlag flag | removeFlag flag => some flag
  | _ => none

/-- The last of these effects that sets or clears the flag. -/
def Effect.last? (flag : String) (effects : List Effect) : Option Effect :=
  (effects.filter fun e => e.flag? == some flag).getLast?

/-- The effects of the actions that a log tells of. -/
def Event.applied (log : List Event) : List Effect :=
  log.filterMap fun e => e.occurrence.action?.map Action.effect

namespace Effect

variable {effect : Effect} {effects : List Effect} {flag : String} {flags : List String}

def onFlagsAll (effects : List Effect) (flags : List String) : List String :=
  effects.foldl (fun flags effect => effect.onFlags flags) flags

theorem nodup_onFlags (h : flags.Nodup) : (effect.onFlags flags).Nodup := by
  cases effect with
  | addFlag flag =>
    rw [onFlags]
    split
    · exact h
    · rename_i hnew
      rw [List.contains_iff_mem] at hnew
      exact List.nodup_append'.mpr ⟨h, List.nodup_singleton flag, by simpa using hnew⟩
  | removeFlag flag => exact h.filter _
  | _ => exact h

/-- An effect decides about the flag that it names, and about no other. -/
theorem mem_onFlags :
    flag ∈ effect.onFlags flags ↔
      if effect.flag? = some flag then effect = addFlag flag else flag ∈ flags := by
  cases effect with
  | addFlag other =>
    have set : flag ∈ (addFlag other).onFlags flags ↔ other = flag ∨ flag ∈ flags := by
      rw [onFlags]
      split
      · rename_i hset
        rw [List.contains_iff_mem] at hset
        exact (or_iff_right_of_imp fun hsame => hsame ▸ hset).symm
      · rw [List.mem_append, List.mem_singleton, or_comm, eq_comm]
    rw [set, flag?]
    by_cases hnamed : other = flag <;> simp [hnamed]
  | removeFlag other =>
    rw [onFlags, flag?, List.mem_filter]
    by_cases hnamed : other = flag
    · simp [hnamed]
    · simp [hnamed, Ne.symm hnamed]
  | _ => rfl

/-- Flags that it does not name stay, in their order. -/
theorem filter_onFlags {q : String → Bool} (h : ∀ flag, effect.flag? = some flag → q flag = false) :
    (effect.onFlags flags).filter q = flags.filter q := by
  cases effect with
  | addFlag flag =>
    rw [onFlags]
    split
    · rfl
    · rw [List.filter_append, List.filter_singleton, h flag rfl]
      exact List.append_nil _
  | removeFlag flag =>
    rw [onFlags, List.filter_filter]
    refine List.filter_congr fun other _ => ?_
    by_cases hnamed : other = flag
    · rw [hnamed, h flag rfl, Bool.false_and]
    · simp [hnamed]
  | _ => rfl

theorem nodup_onFlagsAll (h : flags.Nodup) : (onFlagsAll effects flags).Nodup :=
  List.foldlRecOn effects _ h fun _ hflags _ _ => nodup_onFlags hflags

theorem onFlagsAll_append (effects effects' : List Effect) (flags : List String) :
    onFlagsAll (effects ++ effects') flags = onFlagsAll effects' (onFlagsAll effects flags) :=
  List.foldl_append

theorem onFlagsAll_concat (effects : List Effect) (effect : Effect) (flags : List String) :
    onFlagsAll (effects ++ [effect]) flags = effect.onFlags (onFlagsAll effects flags) :=
  onFlagsAll_append effects [effect] flags

theorem last?_concat (flag : String) (effects : List Effect) (effect : Effect) :
    last? flag (effects ++ [effect]) =
      if effect.flag? = some flag then some effect else last? flag effects := by
  rw [last?, List.filter_append]
  split
  · rename_i hnamed
    rw [List.filter_cons_of_pos (by simpa using hnamed), List.filter_nil, List.getLast?_concat]
  · rename_i hnamed
    rw [List.filter_cons_of_neg (by simpa using hnamed), List.filter_nil, List.append_nil, last?]

/-- A flag is set in the end if the last effect that names it sets it, or none names it and it
was set before. -/
theorem mem_onFlagsAll (effects : List Effect) (flags : List String) (flag : String) :
    flag ∈ onFlagsAll effects flags ↔
      last? flag effects = some (addFlag flag) ∨ last? flag effects = none ∧ flag ∈ flags := by
  -- The last effect names the flag and decides, or it is left to those before it.
  induction effects using List.reverseRecOn with
  | nil => simp [onFlagsAll, last?]
  | append_singleton rest effect ih =>
    rw [onFlagsAll_concat, mem_onFlags, last?_concat]
    split
    · simp
    · exact ih

theorem filter_onFlagsAll (effects : List Effect) (flags : List String) :
    ((onFlagsAll effects flags).filter fun flag => effects.all (·.flag? != some flag)) =
      flags.filter fun flag => effects.all (·.flag? != some flag) := by
  have kept (q : String → Bool) :
      ∀ applied : List Effect, (∀ e ∈ applied, ∀ flag, e.flag? = some flag → q flag = false) →
        (onFlagsAll applied flags).filter q = flags.filter q := by
    intro applied
    induction applied using List.reverseRecOn with
    | nil => exact fun _ => rfl
    | append_singleton rest effect ih =>
      intro hnamed
      rw [onFlagsAll_concat, filter_onFlags (hnamed effect (by simp))]
      exact ih fun e he => hnamed e (List.mem_append_left _ he)
  refine kept _ effects fun e he flag hflag => ?_
  rw [List.all_eq_false]
  exact ⟨e, he, by simp [hflag]⟩

end Effect

theorem Event.applied_append (log log' : List Event) :
    applied (log ++ log') = applied log ++ applied log' :=
  List.filterMap_append

/-- The flags of a ledger are those that the actions it was told of have made. -/
theorem Ledger.replay_flags (l : Ledger) (log : List Event) :
    (l.replay log).flags = Effect.onFlagsAll (Event.applied log) l.flags := by
  induction log using List.reverseRecOn with
  | nil => rfl
  | append_singleton rest e ih =>
    rw [replay_snoc, Event.applied_append, Effect.onFlagsAll_append, ← ih, enter.eq_def]
    cases ho : e.occurrence <;>
      simp [Event.applied, Occurrence.action?, Effect.onFlagsAll, ho]

/-! ### What turns do not write -/

/-- What is left of a context without what turns write. -/
def Context.backdrop (ctx : Context) : Context :=
  { ctx with
    player := { ctx.player with flags := [] }
    conversation := { ctx.conversation with vars := ∅, currentNodeId := "" } }

theorem steady_backdrop {hook : Option Hook} (h : ∀ run, hook = some run → run.Inert) :
    Steady Context.backdrop hook := by
  refine ⟨fun _ _ => rfl, fun _ _ => rfl, fun _ _ => rfl, fun run hrun name params ctx => ?_⟩
  rw [h run hrun]

theorem Hook.Inert.spares {run : Hook} (h : run.Inert) : run.Spares := by
  intro name params ctx
  rw [h]
  exact ⟨rfl, rfl⟩

/-- `c'` is `c` but for variables, place, history, activity and end. -/
def Conversation.Remains (c c' : Conversation) : Prop :=
  c' = { c with
    vars := c'.vars
    currentNodeId := c'.currentNodeId
    history := c'.history
    lastActivity := c'.lastActivity
    turnCount := c'.turnCount
    isActive := c'.isActive
    endReason := c'.endReason }

namespace Conversation

variable {c c' c'' : Conversation}

theorem remains_iff :
    c.Remains c' ↔ c'.id = c.id ∧ c'.playerId = c.playerId ∧ c'.npcId = c.npcId ∧
      c'.providerId = c.providerId ∧ c'.treeId = c.treeId ∧ c'.flags = c.flags ∧
      c'.startedAt = c.startedAt := by
  obtain ⟨id, playerId, npcId, providerId, treeId, _, _, flags, startedAt, _, _, _, _, _⟩ := c'
  simp [Remains]

theorem Remains.refl (c : Conversation) : c.Remains c := rfl

/-- An accepted turn is activity. -/
theorem Remains.touch (c : Conversation) (now : Instant) : c.Remains (c.touch now) := rfl

theorem Remains.trans (h : c.Remains c') (h' : c'.Remains c'') : c.Remains c'' := by
  rw [remains_iff] at *
  simp [h, h']

theorem Continues.remains (h : c.Continues c') (hflags : c'.flags = c.flags) : c.Remains c' :=
  remains_iff.mpr
    ⟨h.id, h.playerId, h.npcId, h.providerId, h.treeId, hflags, h.startedAt⟩

end Conversation

/-- `player'` is `player` but for the flags. -/
def Player.Remains (player player' : Player) : Prop :=
  player' = { player with flags := player'.flags }

theorem Player.remains_iff {player player' : Player} :
    player.Remains player' ↔ { player' with flags := [] } = { player with flags := [] } := by
  obtain ⟨_, _, _, _, _, _, _, _, _, _⟩ := player'
  simp [Remains]

theorem Player.Remains.trans {player player' player'' : Player} (h : player.Remains player')
    (h' : player'.Remains player'') : player.Remains player'' := by
  rw [remains_iff] at *
  exact h'.trans h

theorem Player.Remains.refl (player : Player) : player.Remains player := rfl

/-- A turn leaves its backdrop, and what is written back from it are the flags it began with. -/
theorem Play.Played.remains {c : Conversation} {ps : Participants} {taken : Nat} {now : Instant}
    {play : Play} {r : Response}
    (h : (Play.ofConversation c ps taken).Played Context.backdrop now play r)
    (hsynced : play.Synced) :
    ps.player.Remains play.context.player ∧ c.Remains play.conversation := by
  have same : play.context.backdrop = (Context.assemble c ps).backdrop := h.context
  -- Turns write back flags of the conversation as well, but nothing has written them before.
  have flags : play.context.conversation.flags = c.flags :=
    congrArg (fun ctx => ctx.conversation.flags) same
  exact ⟨Player.remains_iff.mpr (congrArg Context.player same),
    h.continues.remains (hsynced.flags.trans flags)⟩

/-! ### Calls -/

namespace Manager

/-- No provider has custom actions that write anything. -/
def Inert (m : Manager) : Prop :=
  ∀ providerId p, m.providers.get? providerId = some p → p.Inert

/-- What a call that is answered does for its participants, to a conversation `c`. -/
structure Confines (ps : Participants) (c : Conversation) (reply : Reply Answer) (r : Response) :
    Prop where
  npc : reply.result.participants.npc = ps.npc
  world : reply.result.participants.world = ps.world
  player : ps.player.Remains reply.result.participants.player
  flags : reply.result.participants.player.flags =
    Effect.onFlagsAll (Event.applied reply.events) ps.player.flags
  state : c.Remains r.state

/-- A player goes from call to call: from `m` and `player`, the manager and the player after it
and all that was announced.  Custom actions never write anything. -/
inductive Rounds (m : Manager) (player : Player) : Manager → Player → List Event → Prop where
  | refl : Rounds m player m player []
  /-- The next call comes with the player as the last one handed it back. -/
  | start {m' : Manager} {player' : Player} {log : List Event} {ps : Participants}
      {providerId : Option String} {r : Response} (h : Rounds m player m' player' log)
      (hinert : m'.Inert) (hplayer : ps.player = player')
      (hr : (m'.start ps providerId).result.response = .ok r) :
      Rounds m player (m'.start ps providerId).manager
        (m'.start ps providerId).result.participants.player
        (log ++ (m'.start ps providerId).events)
  | advance {m' : Manager} {player' : Player} {log : List Event} {ps : Participants}
      {id input : String} {r : Response} (h : Rounds m player m' player' log)
      (hinert : m'.Inert) (hplayer : ps.player = player')
      (hr : (m'.advance ps id input).result.response = .ok r) :
      Rounds m player (m'.advance ps id input).manager
        (m'.advance ps id input).result.participants.player
        (log ++ (m'.advance ps id input).events)
  /-- In between, time may pass, and others may call what they like, as long as they neither
  restore conversations nor hand them over. -/
  | meanwhile {m' : Manager} {player' : Player} {log : List Event} (call : Call)
      (h : Rounds m player m' player' log) (hinert : m'.Inert)
      (hlaunch : call.isLaunch = false)
      (hswitch : ∀ id providerId, call ≠ .switchProvider id providerId)
      (hproviders : ∀ p ∈ call.providers, p.Authored) :
      Rounds m player (m'.perform call).1 player' log

variable {m m' : Manager} {ps : Participants} {p : Provider} {tree : Tree} {play : Play}
  {r : Response} {player player' : Player} {log : List Event} {id : String}

theorem Inert.spares (h : m.Inert) : m.Spares :=
  fun providerId p hp run hrun => (h providerId p hp run hrun).spares

theorem Reachable.withBackdrop (hm : m.Reachable) (hinert : m.Inert) :
    m.Sound Context.backdrop :=
  hm.sound.withSteady fun providerId p hp => steady_backdrop (hinert providerId p hp)

theorem Opens.confines (hm : m.Reachable) (hinert : m.Inert) {providerId : Option String}
    (h : m.Opens ps providerId p tree play r) :
    Confines ps (p.newConversation m.forum ps tree) (m.start ps providerId) r := by
  have sound := hm.withBackdrop hinert
  have played := h.played sound
  obtain ⟨hplayer, hstate⟩ := played.remains h.synced
  have flags := (h.accounts sound hinert.spares).flags
  rw [Ledger.replay_flags] at flags
  have handed : (m.start ps providerId).result.participants = play.context.releasePlayer ps := by
    rw [h.start_eq]
    rfl
  rw [← played.shows.state] at hstate
  constructor
  case state => exact hstate
  all_goals rw [handed]
  case player => exact hplayer
  case flags => exact flags.symm
  all_goals rfl

theorem Proceeds.confines (hm : m.Reachable) (hinert : m.Inert) {input : String}
    {c : Conversation} {n : Node} (h : m.Proceeds ps id input c p tree n play r) :
    Confines ps c (m.advance ps id input) r := by
  have sound := hm.withBackdrop hinert
  have played := h.played sound
  obtain ⟨hplayer, hstate⟩ := played.remains h.synced
  have flags := (h.accounts sound hinert.spares
    (Ledger.Accounts.balanced { vars := c.vars, flags := ps.player.flags })).flags
  rw [Ledger.replay_flags, List.nil_append] at flags
  have handed : (m.advance ps id input).result.participants = play.context.releasePlayer ps := by
    rw [h.advance_eq sound]
    rfl
  rw [← played.shows.state] at hstate
  constructor
  case state => exact (Conversation.Remains.touch c m.now).trans hstate
  all_goals rw [handed]
  case player => exact hplayer
  case flags => exact flags.symm
  all_goals rfl

/-- What holds of a player's rounds from call to call. -/
structure Rounds.Kept (m : Manager) (player : Player) (m' : Manager) (player' : Player)
    (log : List Event) : Prop where
  reachable : m'.Reachable
  ids : m'.forum.ids.name = m.forum.ids.name ∧ m.forum.ids.issued ≤ m'.forum.ids.issued
  remains : player.Remains player'
  flags : player'.flags = Effect.onFlagsAll (Event.applied log) player.flags
  held : m.Fresh → ∀ id c c', m.conversation? id = some c → m'.conversation? id = some c' →
    c.Remains c'

namespace Rounds.Kept

theorem refl (hm : m.Reachable) : Kept m player m player [] := by
  refine ⟨hm, ⟨rfl, Nat.le_refl _⟩, .refl player, rfl, fun _ id c c' hc hc' => ?_⟩
  obtain rfl := Option.some.inj (hc.symm.trans hc')
  exact .refl c

/-- Conversations that are held on remain, whoever calls. -/
theorem perform_held (h : Kept m player m' player' log) (hfresh : m.Fresh) (hinert : m'.Inert)
    {call : Call} (hlaunch : call.isLaunch = false)
    (hswitch : ∀ id providerId, call ≠ .switchProvider id providerId) {c c' : Conversation}
    (hc : m.conversation? id = some c) (hc' : (m'.perform call).1.conversation? id = some c') :
    c.Remains c' := by
  have sound := h.reachable.sound
  -- By how a call can have come by what it leaves: only a line of input has touched it.
  have holding : m'.Holding id call c' := perform_holding sound hlaunch hc'
  cases holding with
  | kept _ hkept => exact h.held hfresh id c c' hc hkept
  | handed providerId => exact absurd rfl (hswitch id providerId)
  | began _ hnext =>
    -- What was held at first has an id that is not given again.
    obtain ⟨hname, hissued⟩ := h.ids
    have spent := hfresh.spent (Arena.contains_of_get? hc) _ hissued
    rw [IdSupply.next, hname] at hnext
    exact absurd hnext spent
  | spoke hproceeds =>
    have spoken := (hproceeds.confines h.reachable hinert).state
    rw [(hproceeds.played sound).shows.state] at spoken
    exact (h.held hfresh id c _ hc hproceeds.held).trans spoken

theorem perform (h : Kept m player m' player' log) (hinert : m'.Inert) (call : Call)
    (hlaunch : call.isLaunch = false)
    (hswitch : ∀ id providerId, call ≠ .switchProvider id providerId)
    (hproviders : ∀ p ∈ call.providers, p.Authored) :
    Kept m player (m'.perform call).1 player' log := by
  obtain ⟨hname, hissued⟩ := h.ids
  have steps := perform_steps h.reachable.sound hlaunch
    fun p hp => ⟨hproviders p hp, steady_unit _⟩
  obtain ⟨hname', hissued'⟩ := steps.issued_le
  exact ⟨.call call hproviders h.reachable,
    ⟨hname'.trans hname, Nat.le_trans hissued hissued'⟩, h.remains, h.flags,
    fun hfresh id c c' hc hc' => h.perform_held hfresh hinert hlaunch hswitch hc hc'⟩

/-- A call for the player that is answered. -/
theorem call (h : Kept m player m' player' log) {reply : Reply Answer} {c : Conversation}
    (hreply : Kept m player reply.manager player' log) (hplayer : ps.player = player')
    (hconfines : Confines ps c reply r) :
    Kept m player reply.manager reply.result.participants.player (log ++ reply.events) := by
  subst hplayer
  refine ⟨hreply.reachable, hreply.ids, h.remains.trans hconfines.player, ?_, hreply.held⟩
  rw [hconfines.flags, h.flags, Event.applied_append, Effect.onFlagsAll_append]

end Rounds.Kept

theorem Rounds.kept (hm : m.Reachable) (h : Rounds m player m' player' log) :
    Kept m player m' player' log := by
  induction h with
  | refl => exact .refl hm
  | @start _ _ _ ps providerId r _ hinert hplayer hr ih =>
    obtain ⟨p, tree, play, opens⟩ := start_ok ih.reachable.sound hr
    have left := ih.perform hinert (.start ps providerId) rfl nofun
      fun _ hp => absurd hp List.not_mem_nil
    exact ih.call left hplayer (opens.confines ih.reachable hinert)
  | @advance _ _ _ ps id input r _ hinert hplayer hr ih =>
    obtain ⟨c, p, tree, n, play, proceeds⟩ := advance_ok ih.reachable.sound hr
    have left := ih.perform hinert (.advance ps id input) rfl nofun
      fun _ hp => absurd hp List.not_mem_nil
    exact ih.call left hplayer (proceeds.confines ih.reachable hinert)
  | meanwhile call _ hinert hlaunch hswitch hproviders ih =>
    exact ih.perform hinert call hlaunch hswitch hproviders

/-- Content touches flags and variables only.  However a player goes from call to call, nothing
about the player changes but the flags, and these change as a set: the last action that named a
flag has decided about it, and flags that none named are where they were.  Conversations that
are held on change in variables, place, history and activity; and every call that is answered
hands back the NPC and the world, and leaves of its conversation all but these and its end. -/
theorem confinement (hm : m.Reachable) (h : Rounds m player m' player' log) :
    let effects := Event.applied log
    player.Remains player' ∧
    (player.flags.Nodup → player'.flags.Nodup) ∧
    (player'.flags.filter fun flag => effects.all (·.flag? != some flag)) =
      (player.flags.filter fun flag => effects.all (·.flag? != some flag)) ∧
    (∀ flag, flag ∈ player'.flags ↔
      Effect.last? flag effects = some (.addFlag flag) ∨
        Effect.last? flag effects = none ∧ flag ∈ player.flags) ∧
    (m.Fresh → ∀ id c c', m.conversation? id = some c → m'.conversation? id = some c' →
      c.Remains c') ∧
    (m'.Inert →
      (∀ ps providerId r, (m'.start ps providerId).result.response = .ok r →
        ∃ p tree, m'.resolve ps.npc.id providerId = .ok p ∧ p.treeOf ps.npc.id = .ok tree ∧
          Confines ps (Conversation.new m'.forum.ids.next ps.player.id ps.npc.id p.id tree m'.now)
            (m'.start ps providerId) r) ∧
      ∀ ps id input r, (m'.advance ps id input).result.response = .ok r →
        ∃ c, m'.conversation? id = some c ∧ Confines ps c (m'.advance ps id input) r) := by
  intro effects
  have kept := h.kept hm
  have flags : player'.flags = Effect.onFlagsAll effects player.flags := kept.flags
  refine ⟨kept.remains, fun hnodup => ?_, ?_, fun flag => ?_, kept.held, fun hinert =>
    ⟨fun ps providerId r hr => ?_, fun ps id input r hr => ?_⟩⟩
  · rw [flags]
    exact Effect.nodup_onFlagsAll hnodup
  · rw [flags]
    exact Effect.filter_onFlagsAll effects player.flags
  · rw [flags]
    exact Effect.mem_onFlagsAll effects player.flags flag
  · obtain ⟨p, tree, play, opens⟩ := start_ok kept.reachable.sound hr
    exact ⟨p, tree, opens.resolve, opens.mapped, opens.confines kept.reachable hinert⟩
  · obtain ⟨c, p, tree, n, play, proceeds⟩ := advance_ok kept.reachable.sound hr
    exact ⟨c, proceeds.held, proceeds.confines kept.reachable hinert⟩

theorem inert_of_hooks (h : m.providers.values.all (·.hook.isNone) = true) : m.Inert :=
  fun _ _ hp run hrun => absurd hrun (hook_ne_some h hp run)

/-- The guest who came hungry has been fed, and nothing else about the guest has changed. -/
theorem confinement_supper :
    let started := Inn.kitchen.start Inn.diner none
    let seated : Participants := { Inn.diner with player := started.result.participants.player }
    let served := started.manager.advance seated "" "1"
    let player := served.result.participants.player
    let log := started.events ++ served.events
    Rounds Inn.kitchen Inn.diner.player served.manager player log ∧
    Inn.diner.player.Remains player ∧ player.flags.Nodup ∧
    Event.applied log = [.addFlag "fed", .removeFlag "hungry"] ∧
    "fed" ∈ player.flags ∧ "hungry" ∉ player.flags := by
  intro started seated served player log
  obtain ⟨r, hr, -⟩ : ∃ r, started.result.response = .ok r ∧ r.conversationId = "" :=
    exists_ok_of_map (by decide +kernel)
  obtain ⟨r', hr', -⟩ : ∃ r, served.result.response = .ok r ∧ r.isComplete = true :=
    exists_ok_of_map (by decide +kernel)
  have begun : Rounds Inn.kitchen Inn.diner.player started.manager seated.player
      ([] ++ started.events) :=
    .start .refl (inert_of_hooks (by decide +kernel)) rfl hr
  have rounds : Rounds Inn.kitchen Inn.diner.player served.manager player log :=
    .advance begun (inert_of_hooks (by decide +kernel)) rfl hr'
  have effects : Event.applied log = [.addFlag "fed", .removeFlag "hungry"] := by decide +kernel
  obtain ⟨hremains, hnodup, -, hflags, -⟩ := confinement Inn.kitchen_reachable rounds
  refine ⟨rounds, hremains, hnodup (by decide), effects, ?_, ?_⟩
  · rw [hflags, effects]
    decide
  · rw [hflags, effects]
    decide

end Manager

end Parley
