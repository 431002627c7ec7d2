/-
Conditions on what the player has.

A condition with the operator `has` or `notHas` and no value reads as a question whether the
player has something.  For flags and items it is one.  For quests it is not: there the status
is compared with the value that is missing, so `has` never holds and `notHas` always does.

* `Condition.evaluate_owned` — flags and items are asked for as members;
* `Condition.evaluate_quest` — what comes of it for quests;
* `Turn.keeps_warranted` — what a turn announces for another system to do was allowed by the
  context that is announced with it;
* `Player.membership` — so what depends on a flag or an item that the player may not have is
  never announced for one who has it, and what depends on such a quest always is.

Design notes: items and quests change only when another system takes up what was announced,
so the context with an announcement is still the one in which its condition was met.
-/
import Parley.Proofs.Display
import Parley.Proofs.Skipping

namespace Parley

/-- The player has the flag, item or quest that is asked for. -/
def Player.Owns (p : Player) : Subject → Prop
  | .flag name => name ∈ p.flags
  | .item name => name ∈ p.inventory
  | .quest name => p.quests.contains name = true
  | _ => False

instance (p : Player) (subject : Subject) : Decidable (p.Owns subject) :=
  match subject with
  | .flag name => inferInstanceAs (Decidable (name ∈ p.flags))
  | .item name => inferInstanceAs (Decidable (name ∈ p.inventory))
  | .quest name => inferInstanceAs (Decidable (p.quests.contains name = true))
  | .var _ | .stat _ | .skill _ | .level | .time _ => inferInstanceAs (Decidable False)

/-- What the player may have in numbers or not at all. -/
def Subject.isPossession : Subject → Bool
  | flag _ | item _ => true
  | _ => false

/-! ### What is asked -/

section Asked

variable {rules : Rules} {ctx : Context} {subject : Subject}

theorem Subject.outcome_owned (h : subject.isPossession = true) (rules : Rules) (ctx : Context)
    (op : Operator) (expected : Json) : ∃ value, subject.outcome rules ctx op expected =
      some (op.holdsOfMember (ctx.player.Owns subject) value expected) := by
  cases subject with
  | flag name =>
    have present : ctx.player.hasFlag name = decide (name ∈ ctx.player.flags) :=
      List.contains_eq_mem name ctx.player.flags
    rw [outcome, present]
    exact ⟨_, rfl⟩
  | item name =>
    have present : decide (0 < ctx.player.itemCount name) =
        decide (name ∈ ctx.player.inventory) :=
      decide_eq_decide.mpr List.count_pos_iff
    rw [outcome, present]
    exact ⟨_, rfl⟩
  | _ => exact absurd h (by simp [isPossession])

/-- Flags and items are asked for as members, whatever value is given. -/
theorem Condition.evaluate_owned (h : subject.isPossession = true) (rules : Rules) (ctx : Context)
    (expected : Json) (negate : Bool) (taken : Nat) :
    (evaluate rules ctx ⟨.observe subject .has expected, negate⟩ taken).1 =
        (decide (ctx.player.Owns subject) != negate) ∧
      (evaluate rules ctx ⟨.observe subject .notHas expected, negate⟩ taken).1 =
        ((!decide (ctx.player.Owns subject)) != negate) := by
  obtain ⟨_, hhas⟩ := subject.outcome_owned h rules ctx .has expected
  obtain ⟨_, hnot⟩ := subject.outcome_owned h rules ctx .notHas expected
  constructor
  · rw [evaluate, Check.outcome, hhas]
    rfl
  · rw [evaluate, Check.outcome, hnot]
    rfl

/-- Without a value no status of a quest is contained in another, whether there is a quest or
not. -/
theorem Condition.evaluate_quest (rules : Rules) (ctx : Context) (name : String) (negate : Bool)
    (taken : Nat) :
    (evaluate rules ctx ⟨.observe (.quest name) .has .null, negate⟩ taken).1 = negate ∧
      (evaluate rules ctx ⟨.observe (.quest name) .notHas .null, negate⟩ taken).1 = !negate := by
  have outcome : (Subject.quest name).outcome rules ctx .has .null = some false ∧
      (Subject.quest name).outcome rules ctx .notHas .null = some true := by
    rw [Subject.outcome, Subject.outcome]
    cases ctx.player.quests.get? name with
    | none => exact ⟨rfl, rfl⟩
    | some q => exact ⟨rfl, rfl⟩
  rw [evaluate, evaluate, Check.outcome, Check.outcome, outcome.1, outcome.2]
  exact ⟨Bool.false_xor negate, Bool.true_xor negate⟩

end Asked

/-! ### What is announced -/

/-- Another system is asked to do something; the context stays as it is. -/
def Effect.isNotice : Effect → Bool
  | giveItem .. | takeItem .. | startQuest _ | completeQuest _ => true
  | _ => false

/-- If the event is such a notice, its condition was met in the context that it tells of. -/
def Event.Warranted (rules : Rules) (e : Event) : Prop :=
  ∀ a context, e.occurrence = .actionExecuted a context → a.effect.isNotice = true →
    ∃ ctx taken, e = ctx.executed a ∧ (allows rules ctx a.condition taken).1 = true

theorem Event.warranted_of_action? {e : Event} (h : e.occurrence.action? = none) (rules : Rules) :
    e.Warranted rules := by
  intro a context he
  rw [he] at h
  exact absurd h nofun

theorem Effect.apply_notice {effect : Effect} (h : effect.isNotice = true) (hook : Option Hook)
    (s : Scene) : effect.apply hook s = (true, s) := by
  cases effect with
  | giveItem | takeItem | startQuest | completeQuest => rfl
  | _ => exact absurd h nofun

theorem Occurrence.action?_of_not_isEffect {o : Occurrence} (h : o.isEffect = false) :
    o.action? = none := by
  cases o with
  | actionExecuted => exact absurd h nofun
  | _ => rfl

namespace Scene

variable {rules : Rules} {s : Scene}

theorem warranted_publish (h : ∀ e ∈ s.events, e.Warranted rules) {o : Occurrence}
    (ho : o.action? = none) : ∀ e ∈ (s.publish o).events, e.Warranted rules := by
  intro e he
  rcases List.mem_append.mp he with he | he
  · exact h e he
  · obtain rfl := List.mem_singleton.mp he
    exact Event.warranted_of_action? ho rules

theorem warranted_setVariable (h : ∀ e ∈ s.events, e.Warranted rules) (name : String)
    (value : Json) : ∀ e ∈ (s.setVariable name value).events, e.Warranted rules := by
  unfold setVariable
  simp only
  split
  · exact h
  · exact warranted_publish h rfl

/-- A notice leaves the context as it is, so the one announced is the one that was asked. -/
theorem warranted_execute (h : ∀ e ∈ s.events, e.Warranted rules) (a : Action) :
    ∀ e ∈ (a.execute rules s).2.events, e.Warranted rules := by
  obtain ⟨told, hevents, htold⟩ := a.execute_announced rules s
  intro e he
  rw [hevents] at he
  rcases List.mem_append.mp he with he | he
  · exact h e he
  · cases hexecution : e.isExecution with
    | false =>
      refine Event.warranted_of_action? ?_ rules
      rwa [Event.isExecution, Option.isSome_eq_false_iff, Option.isNone_iff_eq_none] at hexecution
    | true =>
      have hran := List.mem_filter.mpr ⟨he, hexecution⟩
      rw [htold] at hran
      split at hran
      · rename_i hruns
        obtain rfl := List.mem_singleton.mp hran
        intro a' context heq hnotice
        obtain ⟨rfl, -⟩ := Occurrence.actionExecuted.inj heq
        have allowed : (allows rules s.context a.condition s.taken).1 = true :=
          (Bool.and_eq_true_iff.mp hruns).1
        refine ⟨s.context, s.taken, ?_, allowed⟩
        rw [Action.execute]
        simp only [Effect.apply_notice hnotice, allowed, if_true]
        rfl
      · exact absurd hran List.not_mem_nil

end Scene

/-- In no turn is anybody asked to do what the conditions bar. -/
theorem Turn.keeps_warranted (t : Turn) : t.Keeps fun p => ∀ e ∈ p.events, e.Warranted t.rules where
  moveTo _ _ h := h
  draw _ _ _ h := h
  setVariable _ name value _ h := Scene.warranted_setVariable h name value
  execute _ a _ h := Scene.warranted_execute h a
  publish _ _ ho h := Scene.warranted_publish h (Occurrence.action?_of_not_isEffect ho)
  conclude p h := by
    obtain ⟨told, hevents, htold⟩ := p.conclude_events t.rules.now
    intro e he
    rw [hevents] at he
    rcases List.mem_append.mp he with he | he
    · exact h e he
    · exact Event.warranted_of_action? (congrArg Occurrence.action? (htold e he)) t.rules
  sync _ h := h

namespace Manager

variable {m : Manager} {reply : Reply Answer} {r : Response}

theorem Asks.warranted (hm : m.Reachable) (h : m.Asks reply)
    (hr : reply.result.response = .ok r) : ∃ rules, ∀ e ∈ reply.events, e.Warranted rules := by
  cases h with
  | start ps providerId =>
    obtain ⟨p, tree, play, opens⟩ := start_ok hm.sound hr
    have told := (p.turn m.forum tree).keeps_warranted.begin
      (p := .ofConversation (p.newConversation m.forum ps tree) ps p.taken)
      fun _ he => absurd he List.not_mem_nil
    rw [opens.begins] at told
    refine ⟨(p.turn m.forum tree).rules, fun e he => ?_⟩
    rw [opens.events_eq, expirePlayer_events hm.sound] at he
    rcases List.mem_append.mp he with he | he
    · obtain ⟨c, -, rfl⟩ := List.mem_map.mp he
      exact Event.warranted_of_action? rfl _
    · rcases List.mem_cons.mp he with rfl | he
      · exact Event.warranted_of_action? rfl _
      · exact told e he
  | advance ps id input =>
    obtain ⟨c, p, tree, n, play, proceeds⟩ := advance_ok hm.sound hr
    have told := (p.turn m.forum tree).keeps_warranted.advance
      (p := .ofConversation (c.touch m.now) ps p.taken) input
      fun _ he => absurd he List.not_mem_nil
    rw [proceeds.advances] at told
    refine ⟨(p.turn m.forum tree).rules, fun e he => ?_⟩
    rw [proceeds.advance_eq hm.sound] at he
    exact told e he

end Manager

/-! ### A cellar

Its steward has a lamp for whoever has none, and tells of rats to whoever has not taken them on
yet. -/

namespace Inn

def ratsUntold : Condition := { check := .observe (.quest "rats") .notHas .null }

def ratsTold : Action := { effect := .startQuest "rats", condition := some ratsUntold }

def lampGiven : Action :=
  { effect := .giveItem "lamp" 1
    condition := some { check := .observe (.item "lamp") .notHas .null } }

def cellar : Tree :=
  { id := "cellar"
    name := "Cellar"
    startNodeId := "stairs"
    nodes := Dict.ofList [
      ("stairs", {
        id := "stairs"
        message := "There are rats down there."
        actions := [ratsTold, lampGiven] })] }

def steward : Provider :=
  (Provider.edit { id := "steward" } (.replaceTree cellar)).edit (.mapNpc "steward" "cellar")

/-- A guest who has taken on the rats before. -/
def hunter : Participants :=
  { player := { id := "guest", quests := Dict.ofList [("rats", .ofStatus "active")] }
    npc := { id := "steward" } }

def vault : Manager := ((Manager.new {} ids Instant.epoch none).perform (.register steward)).1

theorem vault_reachable : vault.Reachable :=
  .call (.register steward) (fun _ hp => List.mem_singleton.mp hp ▸
    .edit (.mapNpc "steward" "cellar") (.edit (.replaceTree cellar) (.new _ _ _ _ _)))
    (.new _ _ _ _ _)

theorem vault_told :
    (vault.start hunter none).events.filterMap (fun e => e.occurrence.action?) =
      [ratsTold, lampGiven] := by
  decide +kernel

end Inn

/-- Flags and items are asked for as members.  Quests are so only as long as the player does not
have them: a quest that is there is not found.  So in a call that is answered, nobody is asked to
do what depends on a flag or an item that the player may not have, if the player has it; but what
depends on a quest that the player may not have always runs. -/
theorem Player.membership {m : Manager} (hm : m.Reachable) {reply : Reply Answer}
    (hreply : m.Asks reply) {r : Response} (hr : reply.result.response = .ok r) :
    (∀ rules (ctx : Context) (subject : Subject) expected negate taken,
      subject.isPossession = true →
      (Condition.evaluate rules ctx ⟨.observe subject .has expected, negate⟩ taken).1 =
          (decide (ctx.player.Owns subject) != negate) ∧
        (Condition.evaluate rules ctx ⟨.observe subject .notHas expected, negate⟩ taken).1 =
          ((!decide (ctx.player.Owns subject)) != negate)) ∧
    (∀ rules (ctx : Context) name negate taken,
      ((Condition.evaluate rules ctx ⟨.observe (.quest name) .has .null, negate⟩ taken).1 =
          (decide (ctx.player.Owns (.quest name)) != negate) ↔
        ¬ ctx.player.Owns (.quest name)) ∧
      ((Condition.evaluate rules ctx ⟨.observe (.quest name) .notHas .null, negate⟩ taken).1 =
          ((!decide (ctx.player.Owns (.quest name))) != negate) ↔
        ¬ ctx.player.Owns (.quest name))) ∧
    (∀ e ∈ reply.events, ∀ (a : Action) context subject expected,
      e.occurrence = .actionExecuted a context → a.effect.isNotice = true →
      a.condition = some { check := .observe subject .notHas expected } →
      subject.isPossession = true →
      ∃ ctx : Context, e = ctx.executed a ∧ ¬ ctx.player.Owns subject) ∧
    ∀ rules s (a : Action) name, a.effect.isNotice = true →
      a.condition = some { check := .observe (.quest name) .notHas .null } →
      a.runs rules s = true := by
  refine ⟨fun rules ctx subject expected negate taken h =>
    Condition.evaluate_owned h rules ctx expected negate taken, ?_, ?_, ?_⟩
  · intro rules ctx name negate taken
    obtain ⟨hhas, hnot⟩ := Condition.evaluate_quest rules ctx name negate taken
    rw [hhas, hnot]
    by_cases howned : ctx.player.Owns (.quest name) <;> cases negate <;> simp [howned]
  · intro e he a context subject expected ho hnotice hcondition howned
    obtain ⟨rules, hwarranted⟩ := hreply.warranted hm hr
    obtain ⟨ctx, taken, heq, hallowed⟩ := hwarranted e he a context ho hnotice
    refine ⟨ctx, heq, ?_⟩
    rw [hcondition] at hallowed
    have asked := (Condition.evaluate_owned howned rules ctx expected false taken).2
    rw [show (Condition.evaluate rules ctx _ taken).1 = true from hallowed] at asked
    simpa using asked.symm
  · intro rules s a name hnotice hcondition
    have met := (Condition.evaluate_quest rules s.context name false s.taken).2
    rw [Action.runs, hcondition]
    simp only [Effect.apply_notice hnotice, Bool.and_true]
    exact met

theorem Player.membership_lamp :
    ∃ e ∈ (Inn.vault.start Inn.hunter none).events, e.occurrence.action? = some Inn.lampGiven ∧
      ∃ ctx : Context, e = ctx.executed Inn.lampGiven ∧ ¬ ctx.player.Owns (.item "lamp") := by
  have given : Inn.lampGiven ∈ [Inn.ratsTold, Inn.lampGiven] :=
    List.mem_cons_of_mem _ List.mem_cons_self
  obtain ⟨e, he, ha⟩ := List.mem_filterMap.mp (Inn.vault_told ▸ given)
  have answered : (Inn.vault.start Inn.hunter none).result.response.isOk = true := by
    decide +kernel
  cases hr : (Inn.vault.start Inn.hunter none).result.response with
  | error => exact absurd (hr ▸ answered) nofun
  | ok r =>
    refine ⟨e, he, ha, ?_⟩
    cases ho : e.occurrence with
    | actionExecuted a context =>
      rw [ho] at ha
      obtain rfl := Option.some.inj ha
      exact (Player.membership Inn.vault_reachable (.start Inn.hunter none) hr).2.2.1 e he _
        context (.item "lamp") .null ho rfl rfl rfl
    | _ =>
      rw [ho] at ha
      exact absurd ha nofun

/-- The guest has the quest, is not found to have it, and is told of it once more. -/
theorem Player.membership_rats :
    Inn.vault.Reachable ∧ Inn.hunter.player.Owns (.quest "rats") ∧
    (∀ rules taken,
      let ctx : Context := { player := Inn.hunter.player }
      (Condition.evaluate rules ctx { check := .observe (.quest "rats") .has .null } taken).1 =
          false ∧
        (Condition.evaluate rules ctx Inn.ratsUntold taken).1 = true) ∧
    Inn.ratsTold.effect = .startQuest "rats" ∧ Inn.ratsTold.condition = some Inn.ratsUntold ∧
    ∃ e ∈ (Inn.vault.start Inn.hunter none).events, e.occurrence.action? = some Inn.ratsTold := by
  exact ⟨Inn.vault_reachable, by decide +kernel,
    fun rules taken => Condition.evaluate_quest rules _ "rats" false taken, rfl, rfl,
    List.mem_filterMap.mp (Inn.vault_told ▸ List.mem_cons_self)⟩

end Parley
