/-
Gates on idle time.

A condition can ask how long ago the last activity was.  Evaluation compares the time since then
with the value of the condition, and that is right as far as it goes; but a turn counts as
activity before any of its conditions are asked, so the time that they see is always zero.

* `Condition.idle?`, `Condition.pausedFor` — the gates, and the answers to conditions if the
  player is taken to have paused for so long;
* `Condition.evaluate_eq_pausedFor` — evaluation answers by the time since the last activity of
  its context;
* `Manager.Proceeds.unpaused` — which for every turn of a call is none at all;
* `Tree.Timeless`, `Manager.Proceeds.repeats` — where no gate looks at any other time, the turn
  goes the same way whenever it is accepted;
* `Manager.pausing` — both, for whatever is answered in any state.

Design notes: the pause that a gate should see is a parameter of the answers, so that the turn as
it is and the turn as it was meant to be are put in the same terms.
-/
import Parley.Proofs.Chance
import Parley.Proofs.Manager.Requests
import Parley.Proofs.Turn.Repeats

namespace Parley

/-! ### Gates -/

namespace Condition

/-- A gate on the time since the last activity: how it compares that, and with what. -/
def idle? (c : Condition) : Option (Operator × Json) :=
  match c.check with
  | .observe (.time target) op expected =>
    if target = "lastActivity" || target = "last_activity" then some (op, expected) else none
  | _ => none

/-- The answers if the player has paused for so many milliseconds.  Only gates on idle time are
answered by the pause. -/
def pausedFor (pause : Int) (rules : Rules) : Answers := fun ctx c taken =>
  match c.idle? with
  | some (op, expected) => (op.holds (some (.int pause)) expected != c.negate, taken)
  | none => c.evaluate rules ctx taken

/-- A condition that looks at no time but the idle time. -/
def isTimeless (c : Condition) : Bool :=
  match c.check with
  | .observe (.time _) .. => c.idle?.isSome
  | _ => true

variable {rules : Rules} {ctx : Context} {c : Condition} {op : Operator} {expected : Json}

theorem evaluate_idle (h : c.idle? = some (op, expected)) (rules : Rules) (ctx : Context)
    (taken : Nat) : c.evaluate rules ctx taken =
      (op.holds (some (.int (rules.now.millisSince ctx.conversation.lastActivity))) expected !=
        c.negate, taken) := by
  obtain ⟨check, negate⟩ := c
  rw [idle?.eq_def] at h
  split at h
  · rename_i target op' expected' hcheck
    simp only at hcheck
    subst hcheck
    split at h
    · rename_i htarget
      obtain ⟨rfl, rfl⟩ := Prod.mk.inj (Option.some.inj h)
      have since : timestamp? ctx target = some ctx.conversation.lastActivity := by
        rw [timestamp?]
        rcases Bool.or_eq_true_iff.mp htarget with h | h <;>
          · obtain rfl := of_decide_eq_true h
            rfl
      rw [evaluate]
      simp only [Check.outcome, Subject.outcome, since]
      rfl
    · exact absurd h (by simp)
  · exact absurd h (by simp)

/-- Evaluation answers by the time since the last activity of the context. -/
theorem evaluate_eq_pausedFor (rules : Rules) (ctx : Context) (c : Condition) (taken : Nat) :
    pausedFor (rules.now.millisSince ctx.conversation.lastActivity) rules ctx c taken =
      c.evaluate rules ctx taken := by
  rw [pausedFor]
  split
  · rename_i op expected hidle
    rw [evaluate_idle hidle]
  · rfl

end Condition

theorem Instant.millisSince_self (a : Instant) : a.millisSince a = 0 := by
  simp [millisSince, since, leapBetween]

/-- A custom action leaves the time of the last activity alone. -/
def Hook.KeepsActivity (run : Hook) : Prop :=
  ∀ name params (ctx : Context),
    (run name params ctx).1.conversation.lastActivity = ctx.conversation.lastActivity

/-- What is ignored is left alone. -/
theorem Hook.IgnoresActivity.keeps {run : Hook} (h : run.IgnoresActivity) :
    run.KeepsActivity := by
  intro name params ctx
  have same := h name params ctx ctx.conversation.lastActivity
  rw [show ctx.dated ctx.conversation.lastActivity = ctx from rfl] at same
  rw [same]
  rfl

theorem steady_activity {hook : Option Hook} (h : ∀ run, hook = some run → run.KeepsActivity) :
    Steady (fun ctx => ctx.conversation.lastActivity) hook :=
  ⟨fun _ _ => rfl, fun _ _ => rfl, fun _ _ => rfl, h⟩

/-! ### Turns -/

/-- A turn at the time of the last activity is one before which nobody has paused. -/
theorem Turn.advanceBy_pausedFor {t : Turn} {p : Play}
    (hhook : ∀ run, t.rules.hook = some run → run.KeepsActivity)
    (hp : p.context.conversation.lastActivity = t.rules.now) (input : String) :
    t.advanceBy (Condition.pausedFor 0 t.rules) p input = t.advance p input := by
  refine advanceBy_eq (fun ctx hctx c _ taken => ?_) (steady_activity hhook) hp input
  have none_passed : t.rules.now.millisSince ctx.conversation.lastActivity = 0 := by
    rw [hctx, Instant.millisSince_self]
  rw [← none_passed, Condition.evaluate_eq_pausedFor]

/-- The answers for timeless conditions; no other is ever met. -/
def Condition.timelessly (rules : Rules) : Answers := fun ctx c taken =>
  if c.isTimeless then pausedFor 0 rules ctx c taken else (false, taken)

namespace Condition

/-- No other condition looks at the time of the last activity. -/
theorem evaluate_dated {c : Condition} (htimeless : c.isTimeless = true) (hidle : c.idle? = none)
    {rules rules' : Rules} (hsample : rules'.sample = rules.sample) (ctx : Context)
    (now : Instant) (taken : Nat) :
    c.evaluate rules' (ctx.dated now) taken = c.evaluate rules ctx taken := by
  have same : c.check.outcome rules' (ctx.dated now) taken = c.check.outcome rules ctx taken := by
    cases hcheck : c.check with
    | observe subject op expected =>
      cases subject with
      | time target =>
        -- A gate on any other time than the idle time is not timeless.
        rw [isTimeless, hcheck, hidle] at htimeless
        exact absurd htimeless (by simp)
      | var | flag | item | quest | stat | skill | level => rfl
    | random chance => rw [Check.outcome, Check.outcome, hsample]
    | unknown => rfl
  rw [evaluate, same, evaluate]

theorem timelessly_repeats {rules rules' : Rules} (hsample : rules'.sample = rules.sample) :
    (timelessly rules).Repeats (timelessly rules') := by
  intro ctx now c taken
  rw [timelessly, timelessly]
  cases htimeless : c.isTimeless with
  | false => rw [if_neg Bool.false_ne_true, if_neg Bool.false_ne_true]
  | true =>
    rw [if_pos rfl, if_pos rfl, pausedFor, pausedFor]
    cases hidle : c.idle? with
    | some gate => rfl
    | none => exact evaluate_dated htimeless hidle hsample ctx now taken

end Condition

/-- The gates of the tree look at no time but the idle time. -/
def Tree.Timeless (t : Tree) : Prop := ∀ c, t.HasCondition c → c.isTimeless = true

instance (t : Tree) : Decidable t.Timeless :=
  decidable_of_iff _ Tree.forall_hasCondition_iff.symm

/-- Where all conditions of the tree are timeless, none is missed. -/
theorem Turn.advanceBy_timelessly {t : Turn} {p : Play} (htimeless : t.tree.Timeless)
    (hhook : ∀ run, t.rules.hook = some run → run.KeepsActivity)
    (hp : p.context.conversation.lastActivity = t.rules.now) (input : String) :
    t.advanceBy (Condition.timelessly t.rules) p input = t.advance p input := by
  refine advanceBy_eq (fun ctx hctx c hc taken => ?_) (steady_activity hhook) hp input
  have none_passed : t.rules.now.millisSince ctx.conversation.lastActivity = 0 := by
    rw [hctx, Instant.millisSince_self]
  rw [Condition.timelessly, if_pos (htimeless c hc), ← none_passed,
    Condition.evaluate_eq_pausedFor]

/-! ### Calls -/

/-- Custom actions leave the time of the last activity alone. -/
def Provider.KeepsActivity (p : Provider) : Prop := ∀ run, p.hook = some run → run.KeepsActivity

/-- Custom actions do not even look at it. -/
def Provider.IgnoresActivity (p : Provider) : Prop :=
  ∀ run, p.hook = some run → run.IgnoresActivity

theorem Provider.IgnoresActivity.keeps {p : Provider} (h : p.IgnoresActivity) :
    p.KeepsActivity := fun run hrun => (h run hrun).keeps

/-- Both calls are answered, with the same but for times and for the texts shown. -/
structure Reply.Repeats (now : Instant) (id : String) (reply reply' : Reply Answer) : Prop where
  events : reply'.events.map Event.bare = reply.events.map Event.bare
  calls : reply'.calls = reply.calls
  participants : reply'.result.participants = reply.result.participants
  providers : reply'.manager.providers = reply.manager.providers
  held : reply'.manager.arena.get? id = (reply.manager.arena.get? id).map (·.dated now)
  response : ∃ r r', reply.result.response = .ok r ∧ reply'.result.response = .ok r' ∧
    r.Repeats now r'

namespace Manager

variable {α : Type} {f : Context → α} {m : Manager} {ps : Participants} {id input : String}
  {c : Conversation} {p : Provider} {tree : Tree} {n : Node} {play : Play} {r : Response}

/-- In every turn of a call nobody has paused. -/
theorem Proceeds.unpaused (h : m.Proceeds ps id input c p tree n play r)
    (hp : p.KeepsActivity) :
    (p.turn m.forum tree).advanceBy (Condition.pausedFor 0 (p.rules m.now))
      (Play.ofConversation (c.touch m.now) ps p.taken) input = (play, .ok r) :=
  (Turn.advanceBy_pausedFor (t := p.turn m.forum tree) hp rfl input).trans h.advances

/-- The conversation as the turn finds it, at either time. -/
theorem repeats_ofConversation (c : Conversation) (ps : Participants) (taken : Nat)
    (time now : Instant) :
    (Play.ofConversation (c.touch time) ps taken).Repeats now
      (Play.ofConversation (c.touch now) ps taken) :=
  ⟨⟨rfl, rfl, rfl, rfl⟩, rfl⟩

/-- The turn goes the same way at any time at which it is accepted. -/
theorem Proceeds.repeats (h : m.Proceeds ps id input c p tree n play r)
    (hp : p.IgnoresActivity) (htimeless : tree.Timeless) {now : Instant}
    (hlive : c.isExpired now m.timeout = false) :
    ∃ play' r', (m.atTime now).Proceeds ps id input c p tree n play' r' ∧
      play.Repeats now play' ∧ r.Repeats now r' := by
  have first := Turn.advanceBy_timelessly (t := p.turn m.forum tree)
    (p := Play.ofConversation (c.touch m.now) ps p.taken) htimeless hp.keeps rfl input
  have second := Turn.advanceBy_timelessly (t := p.turn (m.atTime now).forum tree)
    (p := Play.ofConversation (c.touch now) ps p.taken) htimeless hp.keeps rfl input
  have same : (p.turn m.forum tree).SameBut (p.turn (m.atTime now).forum tree) := ⟨rfl, rfl, rfl⟩
  -- In terms of the same answers the two turns can be compared step by step.
  have asked : (Condition.timelessly (p.turn m.forum tree).rules).Repeats
      (Condition.timelessly (p.turn (m.atTime now).forum tree).rules) :=
    Condition.timelessly_repeats rfl
  have both := Turn.advanceBy_repeats same hp (repeats_ofConversation c ps p.taken m.now now)
    asked input
  rw [first, second, h.advances] at both
  cases hadvance : (p.turn (m.atTime now).forum tree).advance
    (Play.ofConversation (c.touch now) ps p.taken) input with
  | mk play' answer =>
    rw [hadvance] at both
    cases both with
    | @answered _ _ _ r' hplay hr =>
      exact ⟨play', r', ⟨h.held, h.owner, hlive, h.provider, h.installed, h.node, hadvance⟩,
        hplay, hr⟩

/-- A turn that repeats another is answered as that one is. -/
theorem Proceeds.reply_repeats (hm : m.Sound f) {now : Instant} {play' : Play} {r' : Response}
    (h : m.Proceeds ps id input c p tree n play r)
    (h' : (m.atTime now).Proceeds ps id input c p tree n play' r')
    (hplay : play.Repeats now play') (hr : r.Repeats now r') :
    Reply.Repeats now id (m.advance ps id input) ((m.atTime now).advance ps id input) := by
  have hm' : (m.atTime now).Sound f := hm.steps (atTime_steps m now)
  have first := h.advance_eq hm
  have second := h'.advance_eq hm'
  have held := h.get?_eq hm
  have held' := h'.get?_eq hm'
  refine ⟨?_, ?_, ?_, ?_, ?_, r, r', ?_, ?_, hr⟩
  · rw [first, second]
    exact hplay.events
  · rw [first, second]
    exact hplay.calls
  · rw [first, second]
    show play'.context.releasePlayer ps = play.context.releasePlayer ps
    rw [hplay.context]
    rfl
  · rw [first, second]
    show ((m.atTime now).withProvider { p with taken := play'.taken }).providers =
      (m.withProvider { p with taken := play.taken }).providers
    rw [hplay.taken]
    rfl
  · rw [held, held', hplay.conversation]
    show (if play.conversation.isActive = true then _ else _) = _
    cases play.conversation.isActive with
    | false => rfl
    | true => rfl
  · rw [first]
    rfl
  · rw [second]
    rfl

/-- Every line of input that is answered is answered as if the player had not paused before it,
however long that was; and where the gates of the content look at no other time, it is answered
so at any time at which it is accepted. -/
theorem pausing (hm : m.Reachable) (hr : (m.advance ps id input).result.response = .ok r) :
    ∃ c p tree n play, m.Proceeds ps id input c p tree n play r ∧
      (p.KeepsActivity →
        (p.turn m.forum tree).advanceBy (Condition.pausedFor 0 (p.rules m.now))
          (Play.ofConversation (c.touch m.now) ps p.taken) input = (play, .ok r)) ∧
      (p.IgnoresActivity → tree.Timeless → ∀ now, c.isExpired now m.timeout = false →
          Reply.Repeats now id (m.advance ps id input) ((m.atTime now).advance ps id input)) := by
  obtain ⟨c, p, tree, n, play, proceeds⟩ := advance_ok hm.sound hr
  refine ⟨c, p, tree, n, play, proceeds, proceeds.unpaused, fun hp htimeless now hlive => ?_⟩
  obtain ⟨play', r', proceeds', hplay, hr'⟩ := proceeds.repeats hp htimeless hlive
  exact proceeds.reply_repeats hm.sound proceeds' hplay hr'

end Manager

/-! ### The gate of the inn

It is shut for those who come late, and being late is a matter of idle time. -/

namespace Inn

/-- Only who has paused for more than a minute may say that it is late. -/
def late : Choice :=
  { id := "late"
    text := "It is late."
    condition := some { check := .observe (.time "lastActivity") .greaterThan (.int 60000) }
    nextNodeId := some "street" }

def early : Choice :=
  { id := "early"
    text := "Good evening."
    actions := [{ effect := .custom "ring" .null }]
    nextNodeId := some "yard" }

def gate : Node := { id := "gate", message := "Who is there?", choices := [late, early] }

def curfew : Tree :=
  { id := "curfew"
    name := "Curfew"
    startNodeId := "gate"
    nodes := Dict.ofList [
      ("gate", gate),
      ("yard", { id := "yard", message := "Come in.", isEnd := true }),
      ("street", { id := "street", message := "Come back tomorrow.", isEnd := true })] }

/-- Somebody hears the bell. -/
def bell : Hook := fun _ _ ctx => (ctx, true)

def watchman : Provider :=
  (Provider.edit { id := "watchman", hook := some bell } (.replaceTree curfew)).edit
    (.mapNpc "watchman" "curfew")

def traveller : Participants :=
  { player := { id := "guest", name := "Ada" }, npc := { id := "watchman" } }

def guarded : Manager := ((Manager.new {} ids Instant.epoch none).perform (.register watchman)).1

/-- A traveller has knocked at the gate, five minutes ago. -/
def waiting : Manager :=
  (guarded.run [.start traveller none, .setClock (Instant.epoch.addMillis 300000)]).1

def knock : Conversation :=
  { Conversation.new "" "guest" "watchman" "watchman" curfew Instant.epoch with
    history := ["gate"] }

theorem watchman_authored : watchman.Authored :=
  .edit (.mapNpc "watchman" "curfew") (.edit (.replaceTree curfew) (.new _ _ _ _ _))

theorem guarded_reachable : guarded.Reachable :=
  .call (.register watchman) (fun _ hp => List.mem_singleton.mp hp ▸ watchman_authored)
    (.new _ _ _ _ _)

theorem waiting_reachable : waiting.Reachable :=
  (guarded_reachable.perform (.start traveller none) rfl).perform (.setClock _) rfl

theorem bell_ignores : watchman.IgnoresActivity := by
  intro run hrun
  obtain rfl := Option.some.inj hrun
  exact fun _ _ _ _ => rfl

theorem waiting_held : waiting.arena.get? "" = some knock := by decide +kernel

theorem waiting_provider : waiting.providers.get? "watchman" = some watchman := by
  have setup : guarded.SameSetup (guarded.start traveller none).manager :=
    Manager.start_setup guarded_reachable.sound
      (show guarded.Chanceless by decide +kernel) traveller none
  show (guarded.start traveller none).manager.providers.get? "watchman" = _
  rw [setup.providers]
  rfl

end Inn

namespace Manager

/-- Whoever waits for five minutes is taken not to have paused, and hears what is heard by whoever
does not wait at all. -/
theorem pausing_waiting :
    let m := Inn.waiting
    let turn := Inn.watchman.turn m.forum Inn.curfew
    let before := Play.ofConversation (Inn.knock.touch m.now) Inn.traveller 0
    (∃ play r, (m.advance Inn.traveller "" "1").result.response = .ok r ∧
      turn.advanceBy (Condition.pausedFor 0 turn.rules) before "1" = (play, .ok r)) ∧
    Reply.Repeats Instant.epoch "" (m.advance Inn.traveller "" "1")
      ((m.atTime Instant.epoch).advance Inn.traveller "" "1") := by
  intro m turn before
  obtain ⟨r, hr, -⟩ : ∃ r, (m.advance Inn.traveller "" "1").result.response = .ok r ∧
      r.state.history = ["gate", "yard"] := exists_ok_of_map (by decide +kernel)
  obtain ⟨c, p, tree, n, play, proceeds, unpaused, repeats⟩ := pausing Inn.waiting_reachable hr
  obtain rfl := Option.some.inj (Inn.waiting_held.symm.trans proceeds.held)
  obtain rfl := Option.some.inj (Inn.waiting_provider.symm.trans proceeds.provider)
  have installed : Inn.watchman.trees.get? "curfew" = some Inn.curfew := by decide
  obtain rfl := Option.some.inj (installed.symm.trans proceeds.installed)
  exact ⟨⟨play, r, hr, unpaused Inn.bell_ignores.keeps⟩,
    repeats Inn.bell_ignores (by decide) Instant.epoch (by decide +kernel)⟩

/-- Five minutes are not late, though they would be if the gate could see them. -/
theorem pausing_late :
    let m := Inn.waiting
    let turn := Inn.watchman.turn m.forum Inn.curfew
    let before := Play.ofConversation (Inn.knock.touch m.now) Inn.traveller 0
    m.Reachable ∧ m.now.millisSince Inn.knock.lastActivity = 300000 ∧
    Inn.late.condition.bind Condition.idle? = some (.greaterThan, .int 60000) ∧
    ∃ play r, m.Proceeds Inn.traveller "" "1" Inn.knock Inn.watchman Inn.curfew Inn.gate play r ∧
      r.state.history = ["gate", "yard"] ∧
      (turn.advanceBy (Condition.pausedFor 300000 turn.rules) before "1").2.toOption.map
        (fun r => r.state.history) = some ["gate", "street"] := by
  intro m turn before
  obtain ⟨r, hr, history⟩ : ∃ r, (turn.advance before "1").2 = .ok r ∧
      r.state.history = ["gate", "yard"] := exists_ok_of_map (by decide +kernel)
  refine ⟨Inn.waiting_reachable, by decide +kernel, by decide, (turn.advance before "1").1, r,
    ?_, history, by decide +kernel⟩
  exact {
    held := Inn.waiting_held
    owner := rfl
    live := by decide +kernel
    provider := Inn.waiting_provider
    installed := by decide
    node := by decide
    advances := Prod.ext rfl hr }

end Manager

end Parley
