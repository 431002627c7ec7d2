/-
Conditions as content states them.

A condition checks something observed against an expected value, or draws a
chance, and may be negated.  Kinds of check that the engine does not know are
read as `Check.unknown`.

* `Condition.toJson`, `Condition.decode` — the written form; operators that are
  left out are `equals`, but `has` for flags and items and `greater_than` for
  times.
-/
import Parley.Comparison

namespace Parley

/-- What a check looks at. -/
inductive Subject where
  /-- A conversation variable. -/
  | var (name : String)
  /-- A player flag. -/
  | flag (name : String)
  /-- The copies of an item in the player's inventory. -/
  | item (name : String)
  /-- The status of one of the player's quests. -/
  | quest (name : String)
  | stat (name : String)
  | skill (name : String)
  /-- The player's level. -/
  | level
  /-- The milliseconds since a point in time. -/
  | time (target : String)
  deriving DecidableEq, Inhabited

inductive Check where
  | observe (subject : Subject) (operator : Operator) (expected : Json)
  /-- Holds with the given chance, one half if none is given. -/
  | random (chance : Option Float)
  | unknown
  deriving DecidableEq, Inhabited

structure Condition where
  check : Check
  negate : Bool := false
  deriving DecidableEq, Inhabited

namespace Subject

/-- The name of the kind of check. -/
def kind : Subject → String
  | var _ => "variable"
  | flag _ => "flag"
  | item _ => "item"
  | quest _ => "quest"
  | stat _ => "stat"
  | skill _ => "skill"
  | level => "level"
  | time _ => "time"

def target? : Subject → Option String
  | var name | flag name | item name | quest name | stat name | skill name | time name => some name
  | level => none

/-- The operator meant when content gives none. -/
def defaultOperator : Subject → Operator
  | flag _ | item _ => .has
  | time _ => .greaterThan
  | _ => .equals

/-- The subject of a kind of check, given what reads its target. -/
def ofKind? (kind : String) (target : Option String) : Option Subject :=
  match kind with
  | "variable" => target.map var
  | "flag" => target.map flag
  | "item" => target.map item
  | "quest" => target.map quest
  | "stat" => target.map stat
  | "skill" => target.map skill
  | "level" => some level
  | "time" => target.map time
  | _ => none

end Subject

namespace Document

/-- The kind of a tagged record: its name, or its number in `kinds`. -/
def kindName? (kinds : List String) : Document → Option String
  | str s => some s
  | int n => if 0 ≤ n then some (kinds[n.toNat]?.getD "unknown") else none
  | _ => none

end Document

namespace Check

def kinds : List String :=
  ["variable", "flag", "item", "quest", "stat", "skill", "level", "time", "random"]

def decodeObserve (kind : String) (d : Document) : Option Check := do
  let names := if kind = "level" then ["operator", "value"] else ["target", "operator", "value"]
  let fields ← d.object? names
  let subject ← Subject.ofKind? kind ((fields.get? "target").bind Document.string?)
  let operator ← fields.optional "operator" subject.defaultOperator Operator.decodeHeld
  let expected ← fields.optional "value" .null Document.toJson?
  return observe subject operator expected

def decodeRandom (d : Document) : Option Check := do
  let fields ← d.object? ["value"]
  return random (← fields.nullable "value" Document.number?)

/-- The check of a kind, from the record that holds its fields. -/
def decode (kind : String) (d : Document) : Option Check :=
  if kind = "random" then decodeRandom d
  else if kinds.contains kind then decodeObserve kind d
  else some unknown

/-- Members of the written form, in key order. -/
def members : Check → List (String × Json)
  | observe subject operator expected =>
    ("operator", operator.toJson) ::
      (subject.target?.toList.map fun target => ("target", Json.str target)) ++
      [("type", .str subject.kind), ("value", expected)]
  | random chance => [("type", .str "random"), ("value", Json.ofOption Json.ofFloat chance)]
  | unknown => [("type", .str "unknown")]

end Check

namespace Condition

def ofCheck (check : Check) : Condition := { check }

/-- The opposite condition. -/
def negated (c : Condition) : Condition := { c with negate := !c.negate }

def toJson (c : Condition) : Json :=
  .obj ((if c.negate then [("negate", .bool true)] else []) ++ c.check.members)

def decode (d : Document) : Option Condition := do
  let fields ← d.strictObject? ["negate", "type"]
  let kind ← fields.required "type" (Document.kindName? Check.kinds)
  let check ← Check.decode kind d
  return { check, negate := ← fields.optional "negate" false Document.bool? }

end Condition

end Parley
