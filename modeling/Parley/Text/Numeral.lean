/-
Decimal numerals inside text.

A numeral is an optional sign and at least one ASCII digit, nothing else.
Leading zeros count for nothing, and a numeral outside the asked range is none.
-/

namespace Parley.Text

/-- The value of a non-empty run of ASCII digits, continuing from `acc`. -/
def digitsFrom (acc : Nat) : List Char → Option Nat
  | [] => some acc
  | c :: rest =>
    if '0' ≤ c ∧ c ≤ '9' then digitsFrom (acc * 10 + (c.toNat - '0'.toNat)) rest else none

def digits? : List Char → Option Nat
  | [] => none
  | cs => digitsFrom 0 cs

/-- A signed numeral. -/
def signed? : List Char → Option Int
  | '-' :: cs => (digits? cs).map fun n => -(n : Int)
  | '+' :: cs => (digits? cs).map Int.ofNat
  | cs => (digits? cs).map Int.ofNat

/-- A numeral without a minus sign. -/
def unsigned? : List Char → Option Nat
  | '+' :: cs => digits? cs
  | cs => digits? cs

/-- The signed 64-bit range. -/
def int64Min : Int := -9223372036854775808

def int64Max : Int := 9223372036854775807

def uint32Max : Nat := 4294967295

def uint64Max : Nat := 18446744073709551615

def integer? (s : String) : Option Int :=
  (signed? s.toList).filter fun n => int64Min ≤ n && n ≤ int64Max

/-- A numeral without a minus sign that is at most `bound`. -/
def natural? (bound : Nat) (s : String) : Option Nat :=
  (unsigned? s.toList).filter (· ≤ bound)

end Parley.Text
