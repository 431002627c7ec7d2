/-
JSON values.

Whole numbers and floating-point numbers are different values, and an object
lists its members in key order.  `Json.IsCanonical` says that every object
inside has its keys in strictly increasing order; the readers and writers of
this library only build such values.

`Json.same` is the equality that decides whether a variable has changed: it
compares structure, and floating-point numbers as numbers, so that `0.0` and
`-0.0` are the same.
-/
import Parley.Dict

namespace Parley

inductive Json where
  | null
  | bool (b : Bool)
  | int (n : Int)
  | float (x : Float)
  | str (s : String)
  | arr (items : List Json)
  | obj (fields : List (String × Json))

namespace Json

instance : Inhabited Json := ⟨null⟩

/-- An object with the given members; a later member replaces an earlier one. -/
def ofFields (fields : List (String × Json)) : Json := obj (Entries.ofList fields)

def ofStrings (items : List String) : Json := arr (items.map str)

/-- A table as an object. -/
def ofDict {α : Type} (encode : α → Json) (d : Dict α) : Json :=
  obj (d.entries.map fun (key, value) => (key, encode value))

/-- A number.  There are no others than finite ones in JSON: whatever else a double may be is
written as null. -/
def ofFloat (x : Float) : Json := if x.isFinite then float x else null

def ofOption {α : Type} (encode : α → Json) : Option α → Json
  | none => null
  | some a => encode a

mutual

def same : Json → Json → Bool
  | null, null => true
  | bool a, bool b => a == b
  | int a, int b => a == b
  | float a, float b => a == b
  | str a, str b => a == b
  | arr a, arr b => sameItems a b
  | obj a, obj b => sameFields a b
  | _, _ => false

def sameItems : List Json → List Json → Bool
  | [], [] => true
  | a :: as, b :: bs => same a b && sameItems as bs
  | _, _ => false

def sameFields : List (String × Json) → List (String × Json) → Bool
  | [], [] => true
  | (k, a) :: as, (l, b) :: bs => k == l && same a b && sameFields as bs
  | _, _ => false

end

mutual

/-- Every object inside lists its keys in strictly increasing order. -/
def IsCanonical : Json → Prop
  | arr items => AreCanonical items
  | obj fields => Entries.Sorted fields ∧ HaveCanonical fields
  | _ => True

def AreCanonical : List Json → Prop
  | [] => True
  | item :: rest => IsCanonical item ∧ AreCanonical rest

def HaveCanonical : List (String × Json) → Prop
  | [] => True
  | (_, value) :: rest => IsCanonical value ∧ HaveCanonical rest

end

mutual

/-- Whether two values are identical, also in the sign of a zero. -/
def decEq : (a b : Json) → Decidable (a = b)
  | null, b => by
    cases b <;> first | exact isTrue rfl | exact isFalse nofun
  | bool a, b => by
    cases b with
    | bool b => exact decidable_of_iff (a = b) (by simp)
    | _ => exact isFalse nofun
  | int a, b => by
    cases b with
    | int b => exact decidable_of_iff (a = b) (by simp)
    | _ => exact isFalse nofun
  | float a, b => by
    cases b with
    | float b => exact decidable_of_iff (a = b) (by simp)
    | _ => exact isFalse nofun
  | str a, b => by
    cases b with
    | str b => exact decidable_of_iff (a = b) (by simp)
    | _ => exact isFalse nofun
  | arr a, b => by
    cases b with
    | arr b =>
      have := decEqItems a b
      exact decidable_of_iff (a = b) (by simp)
    | _ => exact isFalse nofun
  | obj a, b => by
    cases b with
    | obj b =>
      have := decEqFields a b
      exact decidable_of_iff (a = b) (by simp)
    | _ => exact isFalse nofun

def decEqItems : (a b : List Json) → Decidable (a = b)
  | [], [] => isTrue rfl
  | [], _ :: _ => isFalse nofun
  | _ :: _, [] => isFalse nofun
  | a :: as, b :: bs =>
    have := decEq a b
    have := decEqItems as bs
    decidable_of_iff (a = b ∧ as = bs) (by simp)

def decEqFields : (a b : List (String × Json)) → Decidable (a = b)
  | [], [] => isTrue rfl
  | [], _ :: _ => isFalse nofun
  | _ :: _, [] => isFalse nofun
  | (k, a) :: as, (l, b) :: bs =>
    have := decEq a b
    have := decEqFields as bs
    decidable_of_iff ((k = l ∧ a = b) ∧ as = bs) (by simp)

end

instance : DecidableEq Json := decEq

def get? (key : String) : Json → Option Json
  | obj fields => Entries.get? key fields
  | _ => none

/-- The member of an object under a key, null if there is none. -/
def member (j : Json) (key : String) : Json := (j.get? key).getD null

/-- The items of an array; any other value has none. -/
def items : Json → List Json
  | arr items => items
  | _ => []

def asBool? : Json → Option Bool
  | bool b => some b
  | _ => none

def asInt? : Json → Option Int
  | int n => some n
  | _ => none

def asString? : Json → Option String
  | str s => some s
  | _ => none

/-- The number as a double, rounded to nearest. -/
def asFloat? : Json → Option Float
  | int n => some (Float.ofInt n)
  | float x => some x
  | _ => none

end Json

end Parley
