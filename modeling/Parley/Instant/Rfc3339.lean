/-
Instants as text, after RFC 3339.

Written in UTC with no, three, six or nine digits of a second, the fewest that
keep the value; a year outside 0 to 9999 carries a sign.  Reading is more
generous: blanks around the parts of the date and the time, short numbers, a
blank in place of the T, any offset and the name UTC.
-/
import Parley.Document.Decode
import Parley.Instant
import Parley.Text.Blank

namespace Parley.Instant

section Writing

/-- `n` in decimal with at least `width` digits. -/
def padded (width n : Nat) : List Char :=
  let digits := Nat.toDigits 10 n
  List.replicate (width - digits.length) '0' ++ digits

def yearText (year : Int) : List Char :=
  if 0 ≤ year ∧ year ≤ 9999 then padded 4 year.toNat
  else if year < 0 then '-' :: padded 4 year.natAbs
  else '+' :: padded 4 year.toNat

def fractionText (nanos : Nat) : List Char :=
  if nanos = 0 then []
  else if nanos % 1000000 = 0 then '.' :: padded 3 (nanos / 1000000)
  else if nanos % 1000 = 0 then '.' :: padded 6 (nanos / 1000)
  else '.' :: padded 9 nanos

/-- Date and time of day, without the offset. -/
def civilText (a : Instant) : List Char :=
  let d := a.date
  let time := a.timeOfDay.toNat
  let second := time % 60 + (if a.isLeap then 1 else 0)
  yearText d.year ++ '-' :: padded 2 d.month ++ '-' :: padded 2 d.day ++
    'T' :: padded 2 (time / 3600) ++ ':' :: padded 2 (time / 60 % 60) ++ ':' :: padded 2 second ++
    fractionText (a.nanos % nanosPerSecond)

/-- The usual form, ending in `Z`. -/
def text (a : Instant) : String := String.ofList (a.civilText ++ ['Z'])

/-- The form with a numeric offset, by which saved conversations are ordered. -/
def offsetText (a : Instant) : String :=
  String.ofList (a.civilText ++ ['+', '0', '0', ':', '0', '0'])

end Writing

section Reading

def skipBlanks (cs : List Char) : List Char := cs.dropWhile Text.isBlank

/-- A number of one to `width` digits; `none` for the width sets no limit. -/
def readDigits (width : Option Nat) (cs : List Char) : Option (Nat × List Char) :=
  let digits := match width with
    | some w => (cs.take w).takeWhile Char.isDigit
    | none => cs.takeWhile Char.isDigit
  (Text.digits? digits).map fun n => (n, cs.drop digits.length)

def readNumber (width : Nat) (cs : List Char) : Option (Nat × List Char) :=
  readDigits (some width) (skipBlanks cs)

/-- A year of up to four digits, or of any length after a sign. -/
def readYear (cs : List Char) : Option (Int × List Char) :=
  match skipBlanks cs with
  | '-' :: rest => (readDigits none rest).map fun (n, rest) => (-(n : Int), rest)
  | '+' :: rest => (readDigits none rest).map fun (n, rest) => ((n : Int), rest)
  | rest => (readDigits (some 4) rest).map fun (n, rest) => ((n : Int), rest)

def readMark (mark : Char) (cs : List Char) : Option (List Char) :=
  match skipBlanks cs with
  | c :: rest => if c = mark then some rest else none
  | [] => none

/-- The nanoseconds after a point; digits beyond the ninth count for nothing. -/
def readNanos : List Char → Option (Nat × List Char)
  | '.' :: cs =>
    let digits := cs.takeWhile Char.isDigit
    (Text.digits? (digits.take 9)).map fun n =>
      (n * Nat.pow 10 (9 - (digits.take 9).length), cs.drop digits.length)
  | cs => some (0, cs)

def twoDigits? (a b : Char) : Option Nat := Text.digits? [a, b]

/-- An offset in seconds east of UTC. -/
def readOffset : List Char → Option (Int × List Char)
  | [] => none
  | c :: cs =>
    if c = 'Z' || c = 'z' then some (0, cs)
    else
      let sign : Option Int :=
        if c = '+' then some 1 else if c = '-' || c = Char.ofNat 0x2212 then some (-1) else none
      match sign, cs with
      | some sign, h :: h' :: rest =>
        match twoDigits? h h', rest.dropWhile fun c => c == ':' || Text.isBlank c with
        | some hours, m :: m' :: rest =>
          match twoDigits? m m' with
          | some minutes =>
            if minutes < 60 then some (sign * (hours * 3600 + minutes * 60), rest) else none
          | none => none
        | _, _ => none
      | _, _ => none

def readZone (cs : List Char) : Option (Int × List Char) :=
  match cs with
  | u :: t :: c :: rest =>
    if u.toUpper = 'U' && t.toUpper = 'T' && c.toUpper = 'C' then some (0, rest) else readOffset cs
  | _ => readOffset cs

/-- The instant of a local date and time, if the calendar reaches it. -/
def ofLocal? (d : Date) (hour minute second nanos : Nat) (offset : Int) : Option Instant :=
  -- A leap second is kept as a 59th second that lasts longer than a second.
  let secondsIn := if second = 60 then 59 else second
  let nanosIn := if second = 60 then nanos + nanosPerSecond else nanos
  let a := ofDate d (hour * 3600 + minute * 60 + secondsIn - offset) nanosIn
  if d.isValid && hour < 24 && minute < 60 && second ≤ 60 && offset.natAbs < secondsPerDay &&
      a.inRange then some a
  else none

def readChars (cs : List Char) : Option Instant := do
  let (year, cs) ← readYear cs
  let cs ← readMark '-' cs
  let (month, cs) ← readNumber 2 cs
  let cs ← readMark '-' cs
  let (day, cs) ← readNumber 2 cs
  let cs ← match cs with
    | c :: rest => if c = 'T' || c = 't' || c = ' ' then some rest else none
    | [] => none
  let (hour, cs) ← readNumber 2 cs
  let cs ← readMark ':' cs
  let (minute, cs) ← readNumber 2 cs
  let cs ← readMark ':' cs
  let (second, cs) ← readNumber 2 cs
  let (nanos, cs) ← readNanos cs
  let (offset, cs) ← readZone (skipBlanks cs)
  if (skipBlanks cs).isEmpty then ofLocal? ⟨year, month, day⟩ hour minute second nanos offset
  else none

def read? (s : String) : Option Instant := readChars s.toList

end Reading

def toJson (a : Instant) : Json := .str a.text

def decode (d : Document) : Option Instant := d.string?.bind read?

end Parley.Instant
