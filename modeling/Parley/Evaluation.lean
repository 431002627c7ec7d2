/-
Whether conditions hold.

Evaluation reads a context, the time of the turn and a source of random samples;
the samples taken so far are counted, one for each `random` condition that is
reached.  It never fails: a condition that makes no sense counts as not met,
negated or not.

* `Check.outcome` — the meaning of a check, `none` if it makes no sense;
* `Condition.evaluate` — a condition with its negation;
* `evaluateAll` — all of a list, up to the first that is not met;
* `allows` — an optional condition.
-/
import Parley.Context

namespace Parley

/-- A custom action: it may change the context, and says whether it succeeded.  It keeps no state
of its own, so of the same name, parameters and context it makes the same every time. -/
abbrev Hook := String → Json → Context → Context × Bool

/-- What a turn runs under, besides its content. -/
structure Rules where
  now : Instant
  /-- The random samples in the order in which they are taken, each below one. -/
  sample : Nat → Float
  /-- Runs custom actions; without a hook they do nothing, and succeed. -/
  hook : Option Hook := none

/-- A point in time named by a condition: one of the conversation, a variable with
milliseconds since the epoch, or such a number itself. -/
def timestamp? (ctx : Context) (target : String) : Option Instant :=
  if target = "startedAt" || target = "started_at" then some ctx.conversation.startedAt
  else if target = "lastActivity" || target = "last_activity" then
    some ctx.conversation.lastActivity
  else
    let fromVariable := match ctx.conversation.vars.get? target with
      | some (.int n) => if Text.int64Min ≤ n && n ≤ Text.int64Max then some n else none
      | _ => none
    (fromVariable <|> Text.integer? target).bind Instant.ofMillis?

/-- Membership decides the operators `has` and `notHas`; any other compares
`value`. -/
def Operator.holdsOfMember (op : Operator) (member : Bool) (value expected : Json) : Bool :=
  match op with
  | has => member
  | notHas => !member
  | op => op.holds (some value) expected

/-- Compare what a subject is observed to be; `none` if it cannot be observed. -/
def Subject.outcome (rules : Rules) (ctx : Context) (op : Operator) (expected : Json) :
    Subject → Option Bool
  | var name => some (op.holds (ctx.conversation.vars.get? name) expected)
  | flag name =>
    let present := ctx.player.hasFlag name
    some (op.holdsOfMember present (.bool present) expected)
  | item name =>
    let count := ctx.player.itemCount name
    some (op.holdsOfMember (0 < count) (.int count) expected)
  | quest name =>
    match ctx.player.quests.get? name with
    | some q => some (op.holds (some (.str q.status)) expected)
    | none => some (op == .notHas || op == .notEquals)
  | stat name => some (op.holds ((ctx.player.stats.get? name).map .int) expected)
  | skill name => some (op.holds ((ctx.player.skills.get? name).map .int) expected)
  | level => some (op.holds (some (.int ctx.player.level)) expected)
  | time target =>
    (timestamp? ctx target).map fun since =>
      op.holds (some (.int (rules.now.millisSince since))) expected

/-- The outcome of a check and the samples taken after it. -/
def Check.outcome (rules : Rules) (ctx : Context) (taken : Nat) : Check → Option Bool × Nat
  | observe subject operator expected => (subject.outcome rules ctx operator expected, taken)
  | random chance => (some (rules.sample taken < chance.getD 0.5), taken + 1)
  | unknown => (none, taken)

def Condition.evaluate (rules : Rules) (ctx : Context) (c : Condition) (taken : Nat) :
    Bool × Nat :=
  let (outcome, taken) := c.check.outcome rules ctx taken
  (outcome.any (· != c.negate), taken)

/-- Whether all conditions hold; none is looked at after one that does not. -/
def evaluateAll (rules : Rules) (ctx : Context) : List Condition → Nat → Bool × Nat
  | [], taken => (true, taken)
  | c :: rest, taken =>
    let (holds, taken) := c.evaluate rules ctx taken
    if holds then evaluateAll rules ctx rest taken else (false, taken)

/-- Whether an optional condition holds; without one there is nothing to meet. -/
def allows (rules : Rules) (ctx : Context) (condition : Option Condition) (taken : Nat) :
    Bool × Nat :=
  match condition with
  | none => (true, taken)
  | some c => c.evaluate rules ctx taken

end Parley
