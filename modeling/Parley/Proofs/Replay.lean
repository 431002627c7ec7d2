/-
The events of a conversation tell all that turns do to its variables and to the flags of
its player.

A `Ledger` reads events: a change of a variable is entered as it is told, and so is an
action that sets or clears a flag.  What a turn writes, it announces, and what it does not
announce, it does not change:

* `Ledger.Accounts` — the entries add up to given variables and flags, and each change tells
  the value before it;
* `Ledger.keeps_follows` — every part of a turn keeps the ledger up with the context;
* `Manager.Session` — a run of turns of one conversation;
* `Manager.replay` — its log, replayed from the variables of the tree and the flags at the
  start, gives the variables of the last response and the flags handed back.

Design notes: a value that is written over by one that compares as the same is not
announced, so the ledger may have `0.0` where the conversation has `-0.0`.
-/
import Parley.Proofs.Json
import Parley.Proofs.Manager.Run
import Parley.Proofs.Manager.Turns
import Parley.Proofs.Turn.Invariant

namespace Parley

/-- A custom action writes neither the variables of the conversation nor the flags of the
player. -/
def Hook.Spares (run : Hook) : Prop :=
  ∀ name params ctx, (run name params ctx).1.conversation.vars = ctx.conversation.vars ∧
    (run name params ctx).1.player.flags = ctx.player.flags

def Provider.Spares (p : Provider) : Prop := ∀ run, p.hook = some run → run.Spares

/-- What it means for the flags that an action ran. -/
def Effect.onFlags (effect : Effect) (flags : List String) : List String :=
  match effect with
  | .addFlag flag => if flags.contains flag then flags else flags ++ [flag]
  | .removeFlag flag => flags.filter (· != flag)
  | _ => flags

/-- The variables and the flags that events have told of. -/
structure Ledger where
  vars : Dict Json
  flags : List String

namespace Ledger

def enter (l : Ledger) : Occurrence → Ledger
  | .variableChanged name _ value => { l with vars := l.vars.insert name value }
  | .actionExecuted a _ => { l with flags := a.effect.onFlags l.flags }
  | _ => l

/-- Enter a log in order. -/
def replay (l : Ledger) (log : List Event) : Ledger :=
  log.foldl (fun l e => l.enter e.occurrence) l

/-- Each change tells the value that the ledger has before it, and another one after it. -/
def Truthful (l : Ledger) (log : List Event) : Prop :=
  ∀ before e after name previous value, log = before ++ e :: after →
    e.occurrence = .variableChanged name previous value →
    Option.Rel Json.Alike previous ((l.replay before).vars.get? name) ∧
      previous.any (·.same value) = false

/-- The log, entered into `l`, adds up to these variables and flags. -/
structure Accounts (l : Ledger) (log : List Event) (vars : Dict Json) (flags : List String) :
    Prop where
  vars : ∀ name, Option.Rel Json.Alike ((l.replay log).vars.get? name) (vars.get? name)
  flags : (l.replay log).flags = flags
  truthful : l.Truthful log

variable {l : Ledger} {log : List Event} {vars : Dict Json} {flags : List String}

theorem replay_snoc (l : Ledger) (log : List Event) (e : Event) :
    l.replay (log ++ [e]) = (l.replay log).enter e.occurrence := by
  rw [replay, List.foldl_append]
  rfl

theorem alike_refl (value : Option Json) : Option.Rel Json.Alike value value := by
  cases value with
  | none => exact .none
  | some value => exact .some (.refl value)

theorem alike_symm {a b : Option Json} (h : Option.Rel Json.Alike a b) :
    Option.Rel Json.Alike b a := by
  cases h with
  | none => exact .none
  | some h => exact .some h.symm

/-- Only the last event of a longer log has to be looked at. -/
theorem Truthful.snoc (h : l.Truthful log) {e : Event}
    (he : ∀ name previous value, e.occurrence = .variableChanged name previous value →
      Option.Rel Json.Alike previous ((l.replay log).vars.get? name) ∧
        previous.any (·.same value) = false) : l.Truthful (log ++ [e]) := by
  intro before e' after name previous value hlog
  rcases List.eq_nil_or_concat after with rfl | ⟨after, last, rfl⟩
  · obtain ⟨rfl, hlast⟩ := List.append_inj' hlog rfl
    obtain rfl := List.singleton_inj.mp hlast
    exact he name previous value
  · rw [List.concat_eq_append, ← List.cons_append, ← List.append_assoc] at hlog
    exact h before e' after name previous value (List.append_inj' hlog rfl).1

namespace Accounts

/-- An empty log accounts for what a ledger starts with. -/
theorem balanced (l : Ledger) : l.Accounts [] l.vars l.flags :=
  ⟨fun _ => alike_refl _, rfl, fun _ _ _ _ _ _ hlog => absurd hlog (by simp)⟩

theorem snoc_other (h : l.Accounts log vars flags) {e : Event}
    (he : e.occurrence.isEffect = false) : l.Accounts (log ++ [e]) vars flags := by
  have same : l.replay (log ++ [e]) = l.replay log := by
    rw [replay_snoc, enter.eq_def]
    cases ho : e.occurrence <;> simp_all [Occurrence.isEffect]
  refine ⟨same ▸ h.vars, same ▸ h.flags, h.truthful.snoc fun name previous value ho => ?_⟩
  rw [ho] at he
  exact absurd he (by simp [Occurrence.isEffect])

theorem append_others (h : l.Accounts log vars flags) {others : List Event}
    (hothers : ∀ e ∈ others, e.occurrence.isEffect = false) :
    l.Accounts (log ++ others) vars flags := by
  induction others generalizing log with
  | nil => rwa [List.append_nil]
  | cons e rest ih =>
    rw [← List.singleton_append, ← List.append_assoc]
    exact ih (h.snoc_other (hothers e List.mem_cons_self))
      fun e' he' => hothers e' (List.mem_cons_of_mem e he')

/-- A value written over one that compares as the same needs no announcement. -/
theorem overwrite (h : l.Accounts log vars flags) {name : String} {previous value : Json}
    (hprevious : vars.get? name = some previous) (hsame : previous.same value = true) :
    l.Accounts log (vars.insert name value) flags := by
  -- The ledger keeps the value that was announced last, which is alike to the one written.
  refine ⟨fun name' => ?_, h.flags, h.truthful⟩
  have told := h.vars name'
  rw [Dict.get?_insert]
  split
  · rename_i heq
    subst heq
    rw [hprevious] at told
    generalize (l.replay log).vars.get? name = entered at told
    cases told with
    | some halike => exact .some (halike.trans (.inr hsame))
  · exact told

/-- A change that is announced with the value before it. -/
theorem change (h : l.Accounts log vars flags) {name : String} {value : Json} {e : Event}
    (he : e.occurrence = .variableChanged name (vars.get? name) value)
    (hnew : (vars.get? name).any (·.same value) = false) :
    l.Accounts (log ++ [e]) (vars.insert name value) flags := by
  have entered : l.replay (log ++ [e]) =
      { l.replay log with vars := (l.replay log).vars.insert name value } := by
    rw [replay_snoc, he]
    rfl
  refine ⟨fun name' => ?_, entered ▸ h.flags, h.truthful.snoc fun name' previous value' ho => ?_⟩
  · rw [entered, Dict.get?_insert, Dict.get?_insert]
    split
    · exact alike_refl _
    · exact h.vars name'
  · obtain ⟨rfl, rfl, rfl⟩ := Occurrence.variableChanged.inj (he.symm.trans ho)
    exact ⟨alike_symm (h.vars name), hnew⟩

theorem executed (h : l.Accounts log vars flags) {a : Action} {context : Json} {e : Event}
    (he : e.occurrence = .actionExecuted a context) :
    l.Accounts (log ++ [e]) vars (a.effect.onFlags flags) := by
  have entered : l.replay (log ++ [e]) =
      { l.replay log with flags := a.effect.onFlags (l.replay log).flags } := by
    rw [replay_snoc, he]
    rfl
  refine ⟨entered ▸ h.vars, ?_, h.truthful.snoc fun name previous value ho => ?_⟩
  · rw [entered, ← h.flags]
  · exact absurd (he.symm.trans ho) (by simp)

end Accounts

/-! ### Turns -/

/-- After `log` and the events of the scene, the ledger has what the context has. -/
def Follows (l : Ledger) (log : List Event) (s : Scene) : Prop :=
  l.Accounts (log ++ s.events) s.context.conversation.vars s.context.player.flags

variable {s : Scene}

theorem Follows.publish (h : l.Follows log s) {o : Occurrence} (ho : o.isEffect = false) :
    l.Follows log (s.publish o) := by
  have := Accounts.snoc_other h (e := Event.ofContext s.context o) ho
  rwa [List.append_assoc] at this

theorem Follows.setVariable (h : l.Follows log s) (name : String) (value : Json) :
    l.Follows log (s.setVariable name value) := by
  let written := s.withScope { s.context.conversation with
    vars := s.context.conversation.vars.insert name value }
  unfold Scene.setVariable
  simp only
  split
  · rename_i hsame
    obtain ⟨previous, hprevious, hsame⟩ := (Option.any_eq_true _ _).mp hsame
    exact h.overwrite hprevious hsame
  · rename_i hnew
    have told := h.change (e := Event.ofContext written.context
      (.variableChanged name (s.context.conversation.vars.get? name) value)) rfl
      (Bool.eq_false_iff.mpr hnew)
    rw [List.append_assoc] at told
    exact told

/-- An effect leaves the ledger in step with the variables, and with the flags but for what
its announcement will tell of them. -/
theorem Follows.apply {hook : Option Hook} (hhook : ∀ run, hook = some run → run.Spares)
    (h : l.Follows log s) (effect : Effect) :
    l.Accounts (log ++ (effect.apply hook s).2.events)
      (effect.apply hook s).2.context.conversation.vars s.context.player.flags ∧
    (effect.apply hook s).2.context.player.flags = effect.onFlags s.context.player.flags := by
  cases effect with
  | setVariable name value =>
    have written := h.setVariable name value
    have spared : (s.setVariable name value).context.player = s.context.player := by
      unfold Scene.setVariable
      simp only
      split <;> rfl
    rw [Follows, spared] at written
    exact ⟨written, congrArg Player.flags spared⟩
  | addFlag flag =>
    refine ⟨h, ?_⟩
    show (s.context.player.addFlag flag).flags = _
    rw [Player.addFlag, Player.hasFlag, Effect.onFlags]
    split <;> rfl
  | removeFlag flag => exact ⟨h, rfl⟩
  | custom name params =>
    cases hook with
    | none => exact ⟨h, rfl⟩
    | some run =>
      obtain ⟨hvars, hflags⟩ := hhook run rfl name params s.context
      refine ⟨?_, hflags⟩
      show l.Accounts _ (run name params s.context).1.conversation.vars _
      rw [hvars]
      exact h
  | giveItem | takeItem | startQuest | completeQuest | unknown => exact ⟨h, rfl⟩

/-- Only actions that have nothing to do with flags can fail. -/
theorem onFlags_failed {hook : Option Hook} {effect : Effect}
    (h : (effect.apply hook s).1 = false) (flags : List String) :
    effect.onFlags flags = flags := by
  cases effect with
  | addFlag | removeFlag => exact absurd h (by simp [Effect.apply])
  | _ => rfl

theorem Follows.execute {rules : Rules} (hhook : ∀ run, rules.hook = some run → run.Spares)
    (h : l.Follows log s) (a : Action) : l.Follows log (a.execute rules s).2 := by
  rw [Action.execute]
  simp only
  generalize allows rules s.context a.condition s.taken = asked
  have drawn : l.Follows log { s with taken := asked.2 } := h
  obtain ⟨accounts, hflags⟩ := drawn.apply hhook a.effect
  split
  · split
    · -- The flags are told of by the announcement that the action ran.
      let after := (a.effect.apply rules.hook { s with taken := asked.2 }).2.context
      have told := accounts.executed (a := a)
        (e := Event.ofContext after (.actionExecuted a after.toJson)) rfl
      rw [← hflags, List.append_assoc] at told
      exact told
    · rename_i hfailed
      rw [onFlags_failed (Bool.eq_false_iff.mpr hfailed)] at hflags
      rw [← hflags] at accounts
      exact accounts
  · exact drawn

theorem follows_ofConversation {c : Conversation} {ps : Participants}
    (h : l.Accounts log c.vars ps.player.flags) (taken : Nat) :
    l.Follows log (Play.ofConversation c ps taken).toScene := by
  rw [← List.append_nil log] at h
  exact h

/-- Every part of a turn keeps the ledger up with the context. -/
theorem keeps_follows {t : Turn} (hhook : ∀ run, t.rules.hook = some run → run.Spares)
    (l : Ledger) (log : List Event) : t.Keeps fun p => l.Follows log p.toScene where
  moveTo _ _ h := h
  draw _ _ _ h := h
  setVariable _ name value _ h := h.setVariable name value
  execute _ a _ h := h.execute hhook a
  publish _ _ ho h := h.publish ho
  conclude p h := by
    cases hactive : p.conversation.isActive with
    | true =>
      rw [Play.conclude_active hactive]
      have := Accounts.snoc_other h (e := p.conversation.endEvent .completed t.rules.now) rfl
      rw [List.append_assoc] at this
      exact this
    | false =>
      -- What has ended before announces no other end.
      rwa [Play.conclude_ended hactive]
  sync _ h := h

end Ledger

/-! ### Runs of turns -/

namespace Manager

/-- No provider has custom actions that write what is replayed. -/
def Spares (m : Manager) : Prop :=
  ∀ providerId p, m.providers.get? providerId = some p → p.Spares

section Accounts

variable {α : Type} {f : Context → α} {m : Manager} {ps : Participants} {p : Provider}
  {tree : Tree} {play : Play} {r : Response}

/-- What a start announces accounts for what its turn leaves, from what the tree begins with. -/
theorem Opens.accounts {providerId : Option String} (hm : m.Sound f) (hspares : m.Spares)
    (h : m.Opens ps providerId p tree play r) :
    ({ vars := tree.vars, flags := ps.player.flags } : Ledger).Accounts
      (m.start ps providerId).events play.context.conversation.vars play.context.player.flags := by
  let l : Ledger := { vars := tree.vars, flags := ps.player.flags }
  let started := p.startEvent (m.afterExpiry ps.player.id).forum ps tree
  -- What a start announces before its turn is no matter of the ledger.
  have others : ∀ e ∈ (m.expirePlayer ps.player.id).2 ++ [started],
      e.occurrence.isEffect = false := by
    intro e he
    rw [expirePlayer_events hm] at he
    rcases List.mem_append.mp he with he | he
    · obtain ⟨c, -, rfl⟩ := List.mem_map.mp he
      rfl
    · obtain rfl := List.mem_singleton.mp he
      rfl
  have keeps := Ledger.keeps_follows (t := p.turn m.forum tree)
    (hspares p.id p (h.registered hm).1) l ((m.expirePlayer ps.player.id).2 ++ [started])
  have before : l.Accounts ([] ++ ((m.expirePlayer ps.player.id).2 ++ [started])) l.vars l.flags :=
    (Ledger.Accounts.balanced l).append_others others
  rw [List.nil_append] at before
  have after := keeps.begin (Ledger.follows_ofConversation
    (c := p.newConversation m.forum ps tree) before p.taken)
  rw [h.begins] at after
  rw [h.events_eq]
  rw [Ledger.Follows, List.append_assoc, List.singleton_append] at after
  exact after

/-- A line of input that is answered keeps a log in account. -/
theorem Proceeds.accounts {id input : String} {c : Conversation} {n : Node} {l : Ledger}
    {log : List Event} (hm : m.Sound f) (hspares : m.Spares)
    (h : m.Proceeds ps id input c p tree n play r)
    (hbefore : l.Accounts log c.vars ps.player.flags) :
    l.Accounts (log ++ (m.advance ps id input).events) play.context.conversation.vars
      play.context.player.flags := by
  have keeps := Ledger.keeps_follows (t := p.turn m.forum tree)
    (hspares p.id p (h.registered hm).1) l log
  have after := keeps.advance input
    (Ledger.follows_ofConversation (c := c.touch m.now) hbefore p.taken)
  rw [h.advances] at after
  rw [h.advance_eq hm]
  exact after

end Accounts

/-- A run of turns of one conversation, which began on `tree` for a player with `flags`: the
manager after it, the player handed back, the last response and all that was announced. -/
inductive Session (tree : Tree) (flags : List String) :
    Manager → Player → Response → List Event → Prop where
  | start {m : Manager} {ps : Participants} {providerId : Option String} {p : Provider}
      {r : Response} (hm : m.Reachable) (hspares : m.Spares)
      (hnew : m.arena.contains m.forum.ids.next = false)
      (hresolve : m.resolve ps.npc.id providerId = .ok p)
      (htree : p.treeOf ps.npc.id = .ok tree) (hflags : ps.player.flags = flags)
      (hr : (m.start ps providerId).result.response = .ok r) :
      Session tree flags (m.start ps providerId).manager
        (m.start ps providerId).result.participants.player r (m.start ps providerId).events
  /-- Between the turns anything may be called that leaves the variables as they are. -/
  | meanwhile {m : Manager} {player : Player} {r : Response} {log : List Event} (c : Call)
      (h : Session tree flags m player r log) (hc : ∀ p ∈ c.providers, p.Authored)
      (hvars : ((m.perform c).1.conversation? r.conversationId).map Conversation.vars =
        (m.conversation? r.conversationId).map Conversation.vars) :
      Session tree flags (m.perform c).1 player r log
  /-- The next line of input comes with the player as the last turn handed it back. -/
  | turn {m : Manager} {player : Player} {r r' : Response} {log : List Event}
      {ps : Participants} {input : String} (h : Session tree flags m player r log)
      (hspares : m.Spares) (hplayer : ps.player = player)
      (hr' : (m.advance ps r.conversationId input).result.response = .ok r') :
      Session tree flags (m.advance ps r.conversationId input).manager
        (m.advance ps r.conversationId input).result.participants.player r'
        (log ++ (m.advance ps r.conversationId input).events)

variable {m : Manager} {tree : Tree} {flags : List String} {player : Player} {r : Response}
  {log : List Event}

/-- What holds of a session between its turns. -/
structure Session.Kept (tree : Tree) (flags : List String) (m : Manager) (player : Player)
    (r : Response) (log : List Event) : Prop where
  reachable : m.Reachable
  held : ∀ c, m.conversation? r.conversationId = some c → c.vars = r.vars
  accounts : ({ vars := tree.vars, flags } : Ledger).Accounts log r.vars player.flags

theorem Session.Kept.start {ps : Participants} {providerId : Option String} {p : Provider}
    (hm : m.Reachable) (hspares : m.Spares)
    (hnew : m.arena.contains m.forum.ids.next = false)
    (hresolve : m.resolve ps.npc.id providerId = .ok p) (htree : p.treeOf ps.npc.id = .ok tree)
    (hr : (m.start ps providerId).result.response = .ok r) :
    Kept tree ps.player.flags (m.start ps providerId).manager
      (m.start ps providerId).result.participants.player r (m.start ps providerId).events := by
  have reachable : (m.start ps providerId).manager.Reachable :=
    hm.perform (.start ps providerId) rfl
  obtain ⟨p', tree', play, opens⟩ := start_ok hm.sound hr
  obtain rfl : p' = p := Except.ok.inj (opens.resolve.symm.trans hresolve)
  obtain rfl : tree' = tree := Except.ok.inj (opens.mapped.symm.trans htree)
  have played := opens.played hm.sound
  refine ⟨reachable, fun c hc => ?_, ?_⟩
  · rw [opens.eq_of_held hm.sound hnew hc]
    exact played.shows.vars.symm
  · have after := opens.accounts hm.sound hspares
    rw [played.shows.vars, opens.synced.vars, opens.start_eq]
    rwa [opens.start_eq] at after

theorem Session.Kept.turn (h : Kept tree flags m player r log) (hspares : m.Spares)
    {ps : Participants} (hplayer : ps.player = player) {input : String} {r' : Response}
    (hr' : (m.advance ps r.conversationId input).result.response = .ok r') :
    Kept tree flags (m.advance ps r.conversationId input).manager
      (m.advance ps r.conversationId input).result.participants.player r'
      (log ++ (m.advance ps r.conversationId input).events) := by
  have sound := h.reachable.sound
  have reachable : (m.advance ps r.conversationId input).manager.Reachable :=
    h.reachable.perform (.advance ps r.conversationId input) rfl
  obtain ⟨c, p, tree', n, play, proceeds⟩ := advance_ok sound hr'
  have played := proceeds.played sound
  refine ⟨reachable, fun c' hc' => ?_, ?_⟩
  · rw [proceeds.eq_of_held sound hc']
    exact played.shows.vars.symm
  · have before : ({ vars := tree.vars, flags } : Ledger).Accounts log c.vars ps.player.flags := by
      rw [h.held c proceeds.held, hplayer]
      exact h.accounts
    have after := proceeds.accounts sound hspares before
    rw [proceeds.advance_eq sound] at after ⊢
    rwa [played.shows.vars, proceeds.synced.vars]

theorem Session.kept (h : Session tree flags m player r log) : Kept tree flags m player r log := by
  induction h with
  | start hm hspares hnew hresolve htree hflags hr =>
    subst hflags
    exact .start hm hspares hnew hresolve htree hr
  | @meanwhile m player r log c _ hc hvars ih =>
    refine ⟨.call c hc ih.reachable, fun c' hc' => ?_, ih.accounts⟩
    rw [hc'] at hvars
    obtain ⟨before, hbefore, heq⟩ := Option.map_eq_some_iff.mp hvars.symm
    rw [← heq]
    exact ih.held before hbefore
  | turn _ hspares hplayer hr' ih => exact ih.turn hspares hplayer hr'

/-- The log of a session, replayed from the variables of the tree and the flags that the
player had at first, gives the variables of the last response and the flags of the player
handed back; and each change in it tells the value before it, which is another one. -/
theorem replay (h : Session tree flags m player r log) :
    let l : Ledger := { vars := tree.vars, flags }
    (∀ name, Option.Rel Json.Alike ((l.replay log).vars.get? name) (r.vars.get? name)) ∧
    (∀ before e after name previous value, log = before ++ e :: after →
      e.occurrence = .variableChanged name previous value →
      Option.Rel Json.Alike previous ((l.replay before).vars.get? name) ∧
        previous.any (·.same value) = false) ∧
    (l.replay log).flags = player.flags :=
  ⟨h.kept.accounts.vars, h.kept.accounts.truthful, h.kept.accounts.flags⟩

/-- The price of the stew has gone up, and the guest who came hungry has been fed. -/
theorem replay_supper :
    let started := Inn.kitchen.start Inn.diner none
    let seated : Participants := { Inn.diner with player := started.result.participants.player }
    let served := started.manager.advance seated "" "1"
    let log := started.events ++ served.events
    let l : Ledger := { vars := Inn.supper.vars, flags := ["hungry"] }
    Option.Rel Json.Alike ((l.replay log).vars.get? "price") (some (.int 3)) ∧
    (l.replay log).flags = served.result.participants.player.flags ∧
    served.result.participants.player.flags = ["fed"] := by
  intro started seated served log l
  have spares {m : Manager} (h : m.providers.values.all (·.hook.isNone) = true) : m.Spares := by
    intro providerId p hp run hrun
    exact absurd hrun (hook_ne_some h hp run)
  have named : started.result.response.toOption.map Response.conversationId = some "" := by
    decide +kernel
  have priced : served.result.response.toOption.bind (·.vars.get? "price") = some (.int 3) := by
    decide +kernel
  cases hr : started.result.response with
  | error e => exact absurd (hr ▸ named) (by simp [Except.toOption])
  | ok r =>
    cases hr' : served.result.response with
    | error e => exact absurd (hr' ▸ priced) (by simp [Except.toOption])
    | ok r' =>
      rw [hr] at named
      rw [hr'] at priced
      have hid : r.conversationId = "" := Option.some.inj named
      have begun : Session Inn.supper ["hungry"] started.manager seated.player r started.events :=
        .start (p := Inn.cook) Inn.kitchen_reachable (spares (by decide +kernel)) (by decide +kernel)
          rfl (by decide +kernel) rfl hr
      have answered : (started.manager.advance seated r.conversationId "1").result.response =
          .ok r' := by
        rw [hid]
        exact hr'
      have gone := begun.turn (spares (by decide +kernel)) rfl answered
      rw [hid] at gone
      obtain ⟨hvars, -, hflags⟩ := replay gone
      have hprice := hvars "price"
      rw [show r'.vars.get? "price" = some (.int 3) from priced] at hprice
      exact ⟨hprice, hflags, by decide +kernel⟩

end Manager

end Parley
