/-
JSON documents as they are written.

A document keeps what a value forgets: the order of members and keys that
occur twice.  `unreadable` stands for a part that follows the grammar but has no
value: a number too large for a double, half of a surrogate pair, or nesting
beyond the limit.  Such a part spoils a document only where it is read.

* `toJson?` reads a document as a value; of equal keys the last one counts;
* `record?` reads it as a record with known field names, each at most once.

Design notes: a typed reader is a function `Document → Option α`; there is one
kind of failure, so none is described.
-/
import Parley.Json.Basic

namespace Parley

inductive Document where
  | null
  | bool (b : Bool)
  | int (n : Int)
  | float (x : Float)
  | str (s : String)
  | arr (items : List Document)
  | obj (fields : List (String × Document))
  | unreadable

namespace Document

instance : Inhabited Document := ⟨null⟩

mutual

/-- The value of a document, of which every part must be readable. -/
def toJson? : Document → Option Json
  | null => some .null
  | bool b => some (.bool b)
  | int n => some (.int n)
  | float x => some (.float x)
  | str s => some (.str s)
  | arr items => (itemsToJson? items).map .arr
  | obj fields => (fieldsToJson? fields).map .obj
  | unreadable => none

def itemsToJson? : List Document → Option (List Json)
  | [] => some []
  | item :: rest =>
    match toJson? item, itemsToJson? rest with
    | some value, some values => some (value :: values)
    | _, _ => none

/-- Members in key order; a later member with the same key hides an earlier one. -/
def fieldsToJson? : List (String × Document) → Option (List (String × Json))
  | [] => some []
  | (key, item) :: rest =>
    match toJson? item, fieldsToJson? rest with
    | some value, some fields =>
      if (Entries.get? key fields).isSome then some fields
      else some (Entries.insert key value fields)
    | _, _ => none

end

def isReadable (d : Document) : Bool := d.toJson?.isSome

mutual

/-- A value as the document that writes it out in full. -/
def ofJson : Json → Document
  | .null => null
  | .bool b => bool b
  | .int n => int n
  | .float x => float x
  | .str s => str s
  | .arr items => arr (ofItems items)
  | .obj fields => obj (ofFields fields)

def ofItems : List Json → List Document
  | [] => []
  | item :: rest => ofJson item :: ofItems rest

def ofFields : List (String × Json) → List (String × Document)
  | [] => []
  | (key, value) :: rest => (key, ofJson value) :: ofFields rest

end

end Document

end Parley
