/-
Compact JSON text.

No blanks, members in key order.  Floating-point numbers have the fewest digits
that read back, always with a point or an exponent: positional from `1e-5` up to
below `1e16`, otherwise in exponent form.
-/
import Parley.Decimal.Shortest
import Parley.Json.Basic

namespace Parley

namespace Decimal

/-- `digits` with a point after the first `point` of them, filled up with zeros,
or in exponent form outside the positional range. -/
def layOut (digits : List Char) (exponent : Int) : String :=
  let count : Int := digits.length
  let point := count + exponent
  if 0 ≤ exponent && point ≤ 16 then
    String.ofList (digits ++ List.replicate exponent.toNat '0') ++ ".0"
  else if 0 < point && point ≤ 16 then
    String.ofList (digits.take point.toNat ++ '.' :: digits.drop point.toNat)
  else if -5 < point && point ≤ 0 then
    "0." ++ String.ofList (List.replicate (-point).toNat '0' ++ digits)
  else
    let mantissa := match digits with
      | [] => []
      | [d] => [d]
      | d :: rest => d :: '.' :: rest
    String.ofList mantissa ++ (if 0 < point then "e+" else "e") ++ toString (point - 1)

/-- The bit that is set in a negative double, minus zero included. -/
def signBit : Nat := 9223372036854775808

/-- The text of a finite double. -/
def text (x : Float) : String :=
  let magnitude :=
    if x == 0.0 then "0.0"
    else
      let digits := (Binary.ofFloat x).shortest
      layOut (Nat.toDigits 10 digits.coefficient) digits.exponent
  if signBit ≤ x.toBits.toNat then "-" ++ magnitude else magnitude

end Decimal

namespace Json

def hexDigit (n : Nat) : Char := (Nat.toDigits 16 n).headD '0'

def escape (c : Char) : List Char :=
  if c = '"' then ['\\', '"']
  else if c = '\\' then ['\\', '\\']
  else if c.toNat = 0x8 then ['\\', 'b']
  else if c.toNat = 0xC then ['\\', 'f']
  else if c = '\n' then ['\\', 'n']
  else if c = '\r' then ['\\', 'r']
  else if c = '\t' then ['\\', 't']
  else if c.toNat < 0x20 then ['\\', 'u', '0', '0', hexDigit (c.toNat / 16), hexDigit (c.toNat % 16)]
  else [c]

def quote (s : String) : String :=
  String.ofList ('"' :: s.toList.flatMap escape ++ ['"'])

mutual

def compact : Json → String
  | null => "null"
  | bool true => "true"
  | bool false => "false"
  | int n => toString n
  | float x => Decimal.text x
  | str s => quote s
  | arr items => "[" ++ ",".intercalate (compactItems items) ++ "]"
  | obj fields => "\x7b" ++ ",".intercalate (compactFields fields) ++ "\x7d"

def compactItems : List Json → List String
  | [] => []
  | item :: rest => compact item :: compactItems rest

def compactFields : List (String × Json) → List String
  | [] => []
  | (key, value) :: rest => (quote key ++ ":" ++ compact value) :: compactFields rest

end

end Json

end Parley
