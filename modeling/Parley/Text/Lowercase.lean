/-
Lowercase text.

Each character is replaced by its lowercase counterpart.  Two need more: a
capital I with a dot above becomes two characters, and a capital sigma becomes
the final form at the end of a word, that is after a cased character and not
before one, case-ignorable characters between them not counting.
-/
import Parley.Text.Lowercase.Table

namespace Parley.Text

namespace Lowercase

def inRanges (ranges : List (Nat × Nat)) (c : Char) : Bool :=
  ranges.any fun (first, last) => first ≤ c.toNat && c.toNat ≤ last

def isCased (c : Char) : Bool := inRanges casedRanges c

def isCaseIgnorable (c : Char) : Bool := inRanges caseIgnorableRanges c

/-- The single lowercase counterpart, or the character itself. -/
def lowerChar (c : Char) : Char :=
  if c.toNat < 128 then c.toLower
  else
    match lowerRuns.find? fun (first, last, step, _) =>
        first ≤ c.toNat && c.toNat ≤ last && (c.toNat - first) % step == 0 with
    | some (first, _, _, target) => Char.ofNat (target + (c.toNat - first))
    | none => c

/-- The first character that is not case-ignorable is there and is cased. -/
def meetsCased : List Char → Bool
  | [] => false
  | c :: rest => if isCaseIgnorable c then meetsCased rest else isCased c

/-- Lowercase `cs`, given the characters before it from right to left. -/
def lowerChars (before : List Char) : List Char → List Char
  | [] => []
  | c :: rest =>
    let lowered :=
      if c = 'Σ' then if meetsCased before && !meetsCased rest then ['ς'] else ['σ']
      else if c = 'İ' then ['i', Char.ofNat 0x307]
      else [lowerChar c]
    lowered ++ lowerChars (c :: before) rest

end Lowercase

def lowercase (s : String) : String :=
  String.ofList (Lowercase.lowerChars [] s.toList)

end Parley.Text
