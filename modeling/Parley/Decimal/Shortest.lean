/-
The fewest decimal digits that read back as a given binary fraction.

A positive double is `m · 2 ^ q`.  The reals that round to it form an interval
around it, whose ends belong to it exactly when `m` is even.  Grids of powers of
ten are tried from coarse to fine; the first grid with a point in the interval
gives the digits, and of two points the nearer one, on a tie the even one.

Design notes: everything is exact arithmetic on naturals.  The interval is kept
in quarters of the last binary place, so that its lower end is whole also where
the gap below the value is half the gap above it.
-/

namespace Parley.Decimal

/-- A positive double: `significand · 2 ^ exponent`.  At the bottom of a binade
the next double below is half as far away as the next one above. -/
structure Binary where
  significand : Nat
  exponent : Int
  isBinadeBottom : Bool

/-- The significand of a normal double is this bit and 52 bits of fraction. -/
def hiddenBit : Nat := 4503599627370496

/-- The value of a positive double, from its bits; the sign bit is ignored. -/
def Binary.ofFloat (x : Float) : Binary :=
  let bits : Nat := x.toBits.toNat
  let fraction : Nat := bits % hiddenBit
  let field : Nat := bits / hiddenBit % 2048
  if field = 0 then ⟨fraction, -1074, false⟩
  else ⟨hiddenBit + fraction, (field : Int) - 1075, fraction == 0 && field > 1⟩

/-- Decimal digits: `coefficient · 10 ^ exponent`. -/
structure Digits where
  coefficient : Nat
  exponent : Int

namespace Binary

/-- Four times the value, over `scale`, as a fraction on the grid `10 ^ e`:
numerator per quarter and denominator. -/
def gridScale (b : Binary) (e : Int) : Nat × Nat :=
  let (up, down) :=
    if 0 ≤ b.exponent then (Nat.pow 2 b.exponent.toNat, 1)
    else (1, Nat.pow 2 (-b.exponent).toNat)
  if 0 ≤ e then (up, 4 * down * Nat.pow 10 e.toNat) else (up * Nat.pow 10 (-e).toNat, 4 * down)

/-- The coefficient on the grid `10 ^ e` that reads back as `b` and is nearest to it. -/
def onGrid? (b : Binary) (e : Int) : Option Nat :=
  let (unit, den) := b.gridScale e
  -- The ends of the interval lie half way to the neighbours: two quarters, or one
  -- below the bottom of a binade.
  let value := 4 * b.significand * unit
  let low := (if b.isBinadeBottom then 4 * b.significand - 1 else 4 * b.significand - 2) * unit
  let high := (4 * b.significand + 2) * unit
  let inside (c : Nat) : Bool :=
    if b.significand % 2 = 0 then low ≤ c * den && c * den ≤ high
    else low < c * den && c * den < high
  -- Of the points of the grid only the two around the value need a test.
  let below := value / den
  let above := below + 1
  let gapBelow := value - below * den
  let gapAbove := above * den - value
  if inside below && inside above then
    if gapBelow < gapAbove then some below
    else if gapAbove < gapBelow then some above
    else if below % 2 = 0 then some below else some above
  else if inside below then some below
  else if inside above then some above
  else none

/-- The first grid with a hit, of the `steps` grids from `10 ^ e` downwards. -/
def search (b : Binary) : Nat → Int → Digits
  | 0, _ => ⟨0, 0⟩
  | steps + 1, e =>
    match b.onGrid? e with
    | some coefficient => ⟨coefficient, e⟩
    | none => b.search steps (e - 1)

/-- No double reaches `10 ^ 309`, and every one has a hit by `10 ^ -324`. -/
def shortest (b : Binary) : Digits := b.search 640 309

end Binary

end Parley.Decimal
