/-
Typed readers of documents.

A record is written as an object, or as the list of its fields in order.  An
enumeration is written as the name of a case, or as an object whose one member
has that name and the value null.
-/
import Parley.Document
import Parley.Text.Numeral

namespace Parley

namespace Document

def bool? : Document → Option Bool
  | bool b => some b
  | _ => none

def string? : Document → Option String
  | str s => some s
  | _ => none

/-- A whole number from `low` to `high`. -/
def integer? (low high : Int) : Document → Option Int
  | int n => if low ≤ n ∧ n ≤ high then some n else none
  | _ => none

def int64? : Document → Option Int := integer? Text.int64Min Text.int64Max

/-- A whole number from zero to `bound`. -/
def natural? (bound : Nat) : Document → Option Nat
  | int n => if 0 ≤ n ∧ n ≤ bound then some n.toNat else none
  | _ => none

/-- A number, rounded to a double if it is whole; it is finite, as all that are written are. -/
def number? (d : Document) : Option Float :=
  let x := match d with
    | int n => some (Float.ofInt n)
    | float x => some x
    | _ => none
  x.filter Float.isFinite

def nullable? {α : Type} (decode : Document → Option α) : Document → Option (Option α)
  | null => some none
  | d => (decode d).map some

/-- All results, or nothing. -/
def collect {α β : Type} (f : α → Option β) : List α → Option (List β)
  | [] => some []
  | a :: rest =>
    match f a, collect f rest with
    | some b, some bs => some (b :: bs)
    | _, _ => none

def list? {α : Type} (decode : Document → Option α) : Document → Option (List α)
  | arr items => collect decode items
  | _ => none

def strings? : Document → Option (List String) := list? string?

/-- A table; of equal keys the last one counts. -/
def dict? {α : Type} (decode : Document → Option α) : Document → Option (Dict α)
  | obj fields =>
    (collect (fun (key, d) => (decode d).map (key, ·)) fields).map Dict.ofList
  | _ => none

/-- The case named by an enumeration value. -/
def caseName? : Document → Option String
  | str s => some s
  | obj [(name, null)] => some name
  | _ => none

/-- The case named by an enumeration value that was set aside before it could be
read; there an empty object does for the null. -/
def heldCaseName? : Document → Option String
  | obj [(name, obj [])] => some name
  | d => d.caseName?

end Document

/-- The known fields of a record that a document gives, each at most once. -/
structure Fields where
  entries : List (String × Document)

namespace Fields

def get? (fields : Fields) (name : String) : Option Document :=
  Entries.get? name fields.entries

/-- A field that must be there. -/
def required {α : Type} (fields : Fields) (name : String) (decode : Document → Option α) :
    Option α :=
  (fields.get? name).bind decode

/-- A field that may be left out, for `default`. -/
def optional {α : Type} (fields : Fields) (name : String) (default : α)
    (decode : Document → Option α) : Option α :=
  match fields.get? name with
  | some d => decode d
  | none => some default

/-- A field for which null says the same as leaving it out. -/
def nullable {α : Type} (fields : Fields) (name : String) (decode : Document → Option α) :
    Option (Option α) :=
  fields.optional name none (Document.nullable? decode)

/-- Keep the members with the given names, none of which may occur twice. -/
def ofMembers? (names : List String) (members : List (String × Document)) : Option Fields :=
  let known := members.filter fun member => names.contains member.1
  if (known.map Prod.fst).Nodup then some ⟨known⟩ else none

end Fields

namespace Document

/-- A record written as an object; members with other names are skipped. -/
def object? (names : List String) : Document → Option Fields
  | obj members => Fields.ofMembers? names members
  | _ => none

/-- A record written as an object, of which also the skipped members must be readable. -/
def strictObject? (names : List String) : Document → Option Fields
  | obj members =>
    if members.all (·.2.isReadable) then Fields.ofMembers? names members else none
  | _ => none

/-- A record written as an object or as a list of its first fields in order. -/
def record? (names : List String) : Document → Option Fields
  | arr items => if items.length ≤ names.length then some ⟨names.zip items⟩ else none
  | d => d.object? names

end Document

end Parley
