/-
How conditions compare an observed value with an expected one.

* `Operator.holds` — the meaning of each operator; a value that is absent equals
  nothing and contains nothing, so only the negative operators hold for it;
* `Json.looselyEqual` — numbers are equal when they differ by less than
  `2 ^ -52`, whatever way they are written; anything else must be the same.
-/
import Parley.Document.Decode
import Parley.Text.Blank

namespace Parley

inductive Operator where
  | equals
  | notEquals
  | greaterThan
  | lessThan
  | has
  | notHas
  | isIn
  | isNotIn
  /-- Any operator the engine does not know; it never holds. -/
  | unknown
  deriving DecidableEq, Inhabited

namespace Operator

def name : Operator → String
  | equals => "equals"
  | notEquals => "not_equals"
  | greaterThan => "greater_than"
  | lessThan => "less_than"
  | has => "has"
  | notHas => "not_has"
  | isIn => "in"
  | isNotIn => "not_in"
  | unknown => "unknown"

def known : List Operator :=
  [equals, notEquals, greaterThan, lessThan, has, notHas, isIn, isNotIn]

def ofName (s : String) : Operator := (known.find? (·.name = s)).getD unknown

def toJson (op : Operator) : Json := .str op.name

def decode (d : Document) : Option Operator := d.caseName?.map ofName

/-- An operator inside a record that was set aside. -/
def decodeHeld (d : Document) : Option Operator := d.heldCaseName?.map ofName

theorem ofName_name (op : Operator) : ofName op.name = op := by
  cases op <;> decide

end Operator

namespace Json

/-- Two numbers this close count as equal. -/
def tolerance : Float := Float.ofScientific 2220446049250313 true 31

def looselyEqual (a b : Json) : Bool :=
  match a.asFloat?, b.asFloat? with
  | some x, some y => (x - y).abs < tolerance
  | _, _ => same a b

def isGreater : Json → Json → Bool
  | str a, str b => b < a
  | a, b =>
    match a.asFloat?, b.asFloat? with
    | some x, some y => y < x
    | _, _ => false

/-- The first value is an array with such an item, a text with such a part, or an
object with such a key. -/
def holds (container : Json) (item : Json) : Bool :=
  match container, item with
  | arr items, item => items.any (looselyEqual · item)
  | str s, str part => Text.occursIn part s
  | obj fields, str key => (Entries.get? key fields).isSome
  | _, _ => false

end Json

/-- Compare an observed value, if there is one, with the expected one. -/
def Operator.holds (op : Operator) (actual : Option Json) (expected : Json) : Bool :=
  match op with
  | equals => actual.any (·.looselyEqual expected)
  | notEquals => !actual.any (·.looselyEqual expected)
  | greaterThan => actual.any (·.isGreater expected)
  | lessThan => actual.any (expected.isGreater ·)
  | has => actual.any (·.holds expected)
  | notHas => !actual.any (·.holds expected)
  | isIn => actual.any (expected.holds ·)
  | isNotIn => !actual.any (expected.holds ·)
  | unknown => false

end Parley
