/-
Ids of conversations.

An id is written as a random UUID: 32 hexadecimal digits in five groups, of
which 122 bits are free and the others mark the version and the variant.
-/
import Parley.Json.Printer

namespace Parley.Identifier

/-- The lowest `count` hexadecimal digits of a number, the last one first. -/
def hexDigits : Nat → Nat → List Char
  | 0, _ => []
  | count + 1, n => Json.hexDigit (n % 16) :: hexDigits count (n / 16)

/-- The id whose free bits are the lowest 122 of a number. -/
def ofBits (n : Nat) : String :=
  let free := hexDigits 30 n
  let variant := Json.hexDigit (8 + n / Nat.pow 16 30 % 4)
  let (node, rest) := free.splitAt 12
  let (clock, rest) := rest.splitAt 3
  let (version, rest) := rest.splitAt 3
  let (mid, low) := rest.splitAt 4
  String.ofList (node ++ '-' :: clock ++ variant :: '-' :: version ++ '4' :: '-' :: mid ++
    '-' :: low).reverse

end Parley.Identifier
