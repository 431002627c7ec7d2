/-
Doubles read from decimal digits by scaling.

The leading digits that fit 64 bits are taken as a whole number, and the result
is that number times or over a power of ten.  Both steps round, so the result
may differ in its last bit from the double nearest to the decimal.
-/

namespace Parley.Decimal

/-- Powers of ten above this one are reached in steps. -/
def largestPower : Nat := 308

/-- The double nearest to `10 ^ n`, for `n` up to `largestPower`. -/
def power (n : Nat) : Float := Float.ofScientific 1 false n

/-- Divide by `10 ^ n`, by the largest power as often as it takes. -/
def divideByPower : Nat → Float → Nat → Float
  | 0, x, n => x / power n
  | steps + 1, x, n =>
    if n ≤ largestPower then x / power n
    else if x == 0.0 then x
    else divideByPower steps (x / power largestPower) (n - largestPower)

/-- `significand · 10 ^ exponent`, unless it is too large for a double. -/
def scale? (significand : Nat) (exponent : Int) : Option Float :=
  let x := Float.ofNat significand
  if exponent < 0 then
    let n := (-exponent).toNat
    some (divideByPower (n / largestPower + 1) x n)
  else if exponent.toNat ≤ largestPower then
    let y := x * power exponent.toNat
    if y.isInf then none else some y
  else if significand = 0 then some 0.0
  else none

/-- Digits taken in so far: a whole number and the power of ten it stands at. -/
structure Taken where
  significand : Nat
  exponent : Int

def significandMax : Nat := 18446744073709551615

namespace Taken

/-- Take in digits before the point.  From the first that does not fit, each
only raises the exponent. -/
def takeWhole (p : Taken) : List Nat → Taken
  | [] => p
  | d :: rest =>
    if p.significand * 10 + d ≤ significandMax then
      takeWhole ⟨p.significand * 10 + d, p.exponent⟩ rest
    else ⟨p.significand, p.exponent + 1 + rest.length⟩

/-- Take in digits after the point, up to the first that does not fit. -/
def takeFraction (p : Taken) : List Nat → Taken
  | [] => p
  | d :: rest =>
    if p.significand * 10 + d ≤ significandMax then
      takeFraction ⟨p.significand * 10 + d, p.exponent - 1⟩ rest
    else p

end Taken

/-- The double written `whole.fraction` times `10 ^ exponent`. -/
def ofDigits? (whole fraction : List Nat) (exponent : Int) : Option Float :=
  let p := (Taken.takeWhole ⟨0, 0⟩ whole).takeFraction fraction
  scale? p.significand (p.exponent + exponent)

end Parley.Decimal
