/-
Reading JSON text.

`Document.read` accepts exactly one value between blanks.  The grammar is
checked everywhere; what a part means is left to whoever reads it, see
`Document.unreadable`.

Design notes: the readers recurse on a budget that every call spends one of.
Each two calls in a row take at least one character, so twice the length of the
text and a little is enough.
-/
import Parley.Document
import Parley.Decimal.Scaled
import Parley.Text.Numeral

namespace Parley.Document

/-- Containers may be nested this deep. -/
def depthLimit : Nat := 127

def isGap (c : Char) : Bool := c == ' ' || c == '\t' || c == '\n' || c == '\r'

def skipGaps (cs : List Char) : List Char := cs.dropWhile isGap

section Numbers

def digitValue (c : Char) : Nat := c.toNat - '0'.toNat

def digitSpan (cs : List Char) : List Nat × List Char :=
  ((cs.takeWhile Char.isDigit).map digitValue, cs.dropWhile Char.isDigit)

def wholeValue (digits : List Nat) : Nat := digits.foldl (fun n d => n * 10 + d) 0

/-- The digits after a point, and whether there is a point. -/
def readFraction : List Char → Option (Option (List Nat) × List Char)
  | '.' :: cs =>
    match digitSpan cs with
    | ([], _) => none
    | (digits, rest) => some (some digits, rest)
  | cs => some (none, cs)

def readExponentDigits (negative : Bool) (cs : List Char) : Option (Option Int × List Char) :=
  match digitSpan cs with
  | ([], _) => none
  | (digits, rest) =>
    let n : Int := wholeValue digits
    some (some (if negative then -n else n), rest)

def readExponent : List Char → Option (Option Int × List Char)
  | c :: cs =>
    if c == 'e' || c == 'E' then
      match cs with
      | '-' :: rest => readExponentDigits true rest
      | '+' :: rest => readExponentDigits false rest
      | rest => readExponentDigits false rest
    else some (none, c :: cs)
  | [] => some (none, [])

/-- Numbers without point and exponent that fit 64 bits are whole numbers; minus
zero is not one of them. -/
def ofNumeral (negative : Bool) (whole : List Nat) (fraction : Option (List Nat))
    (exponent : Option Int) : Document :=
  let asFloat : Document :=
    match Decimal.ofDigits? whole (fraction.getD []) (exponent.getD 0) with
    | some x => float (if negative then -x else x)
    | none => unreadable
  if fraction.isSome || exponent.isSome then asFloat
  else
    let n := wholeValue whole
    if negative then
      if 0 < n && -(n : Int) ≥ Text.int64Min then int (-(n : Int)) else asFloat
    else if n ≤ Text.uint64Max then int n
    else asFloat

def readNumber (cs : List Char) : Option (Document × List Char) :=
  let (negative, cs) := match cs with
    | '-' :: rest => (true, rest)
    | rest => (false, rest)
  match digitSpan cs with
  | ([], _) => none
  -- A zero stands only before the point.
  | (0 :: _ :: _, _) => none
  | (whole, rest) =>
    match readFraction rest with
    | none => none
    | some (fraction, rest) =>
      match readExponent rest with
      | none => none
      | some (exponent, rest) => some (ofNumeral negative whole fraction exponent, rest)

end Numbers

section Strings

/-- What stands at one place of a string: a character, or a numbered UTF-16 unit. -/
inductive Glyph where
  | plain (c : Char)
  | unit (n : Nat)

def hexValue? (c : Char) : Option Nat :=
  if '0' ≤ c ∧ c ≤ '9' then some (c.toNat - '0'.toNat)
  else if 'a' ≤ c ∧ c ≤ 'f' then some (c.toNat - 'a'.toNat + 10)
  else if 'A' ≤ c ∧ c ≤ 'F' then some (c.toNat - 'A'.toNat + 10)
  else none

def unit? (a b c d : Char) : Option Nat :=
  match hexValue? a, hexValue? b, hexValue? c, hexValue? d with
  | some a, some b, some c, some d => some (((a * 16 + b) * 16 + c) * 16 + d)
  | _, _, _, _ => none

def simpleEscape? : Char → Option Char
  | '"' => some '"'
  | '\\' => some '\\'
  | '/' => some '/'
  | 'b' => some (Char.ofNat 0x8)
  | 'f' => some (Char.ofNat 0xC)
  | 'n' => some '\n'
  | 'r' => some '\r'
  | 't' => some '\t'
  | _ => none

/-- The rest of a string, after its opening quote. -/
def readGlyphs : List Char → Option (List Glyph × List Char)
  | '"' :: rest => some ([], rest)
  | '\\' :: 'u' :: a :: b :: c :: d :: rest =>
    match unit? a b c d with
    | some n => (readGlyphs rest).map fun (glyphs, rest) => (.unit n :: glyphs, rest)
    | none => none
  | '\\' :: e :: rest =>
    match simpleEscape? e with
    | some c => (readGlyphs rest).map fun (glyphs, rest) => (.plain c :: glyphs, rest)
    | none => none
  | c :: rest =>
    if c.toNat < 0x20 || c == '\\' then none
    else (readGlyphs rest).map fun (glyphs, rest) => (.plain c :: glyphs, rest)
  | [] => none

def isHighSurrogate (n : Nat) : Bool := 0xD800 ≤ n && n < 0xDC00

def isLowSurrogate (n : Nat) : Bool := 0xDC00 ≤ n && n < 0xE000

/-- The characters meant; a surrogate counts only as half of a pair. -/
def joinGlyphs : List Glyph → Option (List Char)
  | [] => some []
  | .plain c :: rest => (joinGlyphs rest).map (c :: ·)
  | .unit n :: .unit m :: rest =>
    if isHighSurrogate n then
      if isLowSurrogate m then
        (joinGlyphs rest).map
          (Char.ofNat (0x10000 + (n - 0xD800) * 0x400 + (m - 0xDC00)) :: ·)
      else none
    else if isLowSurrogate n then none
    else (joinGlyphs (.unit m :: rest)).map (Char.ofNat n :: ·)
  | .unit n :: rest =>
    if isHighSurrogate n || isLowSurrogate n then none
    else (joinGlyphs rest).map (Char.ofNat n :: ·)

/-- A string after its opening quote; `none` inside if it has no meaning. -/
def readString (cs : List Char) : Option (Option String × List Char) :=
  (readGlyphs cs).map fun (glyphs, rest) => ((joinGlyphs glyphs).map String.ofList, rest)

end Strings

def readWord (word : List Char) (value : Document) (cs : List Char) :
    Option (Document × List Char) :=
  if word.isPrefixOf cs then some (value, cs.drop word.length) else none

/-- A container below the depth limit, or an unreadable part beyond it. -/
def limited (depth : Nat) (d : Document) : Document :=
  if depth < depthLimit then d else unreadable

/-- An object, unreadable if one of its keys is. -/
def ofMembers (members : List (Option String × Document)) : Document :=
  if members.all (·.1.isSome) then
    obj (members.filterMap fun (key, value) => key.map (·, value))
  else unreadable

mutual

/-- One value at the start of the text, inside `depth` containers. -/
def readValue (depth : Nat) : Nat → List Char → Option (Document × List Char)
  | 0, _ => none
  | budget + 1, cs =>
    match skipGaps cs with
    | [] => none
    | '[' :: rest =>
      match skipGaps rest with
      | ']' :: rest => some (limited depth (arr []), rest)
      | rest =>
        (readItems (depth + 1) budget rest).map fun (items, rest) =>
          (limited depth (arr items), rest)
    | '\x7b' :: rest =>
      match skipGaps rest with
      | '\x7d' :: rest => some (limited depth (obj []), rest)
      | rest =>
        (readMembers (depth + 1) budget rest).map fun (members, rest) =>
          (limited depth (ofMembers members), rest)
    | '"' :: rest =>
      (readString rest).map fun (s, rest) =>
        (match s with
          | some s => str s
          | none => unreadable, rest)
    | 't' :: rest => readWord ['r', 'u', 'e'] (bool true) rest
    | 'f' :: rest => readWord ['a', 'l', 's', 'e'] (bool false) rest
    | 'n' :: rest => readWord ['u', 'l', 'l'] null rest
    | rest => readNumber rest

/-- At least one item, up to the closing bracket. -/
def readItems (depth : Nat) : Nat → List Char → Option (List Document × List Char)
  | 0, _ => none
  | budget + 1, cs =>
    match readValue depth budget cs with
    | none => none
    | some (item, rest) =>
      match skipGaps rest with
      | ']' :: rest => some ([item], rest)
      | ',' :: rest => (readItems depth budget rest).map fun (items, rest) => (item :: items, rest)
      | _ => none

/-- At least one member, up to the closing brace. -/
def readMembers (depth : Nat) :
    Nat → List Char → Option (List (Option String × Document) × List Char)
  | 0, _ => none
  | budget + 1, cs =>
    match skipGaps cs with
    | '"' :: rest =>
      match readString rest with
      | none => none
      | some (key, rest) =>
        match skipGaps rest with
        | ':' :: rest =>
          match readValue depth budget rest with
          | none => none
          | some (value, rest) =>
            match skipGaps rest with
            | '\x7d' :: rest => some ([(key, value)], rest)
            | ',' :: rest =>
              (readMembers depth budget rest).map fun (members, rest) =>
                ((key, value) :: members, rest)
            | _ => none
        | _ => none
    | _ => none

end

/-- The document written in `text`, with nothing around it but gaps. -/
def read (text : String) : Option Document :=
  let cs := text.toList
  match readValue 0 (2 * cs.length + 2) cs with
  | some (d, rest) => if (skipGaps rest).isEmpty then some d else none
  | none => none

end Parley.Document
