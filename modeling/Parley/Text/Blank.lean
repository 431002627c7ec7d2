/-
Blank characters and the pieces of a text between them.

`isBlank` is the property White_Space.  `trim` removes blanks at both ends,
`words` lists the longest blank-free pieces, `splitOn` cuts at every separator
and `occursIn` looks for one text inside another.

* `trimChars_of_ends` — a text that neither starts nor ends with a blank is
  left alone.
-/

namespace Parley.Text

/-- Property White_Space: 25 code points. -/
def isBlank (c : Char) : Bool :=
  let n := c.toNat
  (0x9 ≤ n && n ≤ 0xD) || n == 0x20 || n == 0x85 || n == 0xA0 || n == 0x1680 ||
    (0x2000 ≤ n && n ≤ 0x200A) || n == 0x2028 || n == 0x2029 || n == 0x202F ||
    n == 0x205F || n == 0x3000

def trimChars (cs : List Char) : List Char :=
  ((cs.dropWhile isBlank).reverse.dropWhile isBlank).reverse

def trim (s : String) : String := String.ofList (trimChars s.toList)

/-- All characters are blank; so is the empty text. -/
def isBlankText (s : String) : Bool := s.toList.all isBlank

theorem trimChars_of_ends {cs : List Char} (hfirst : ∀ c ∈ cs.head?, isBlank c = false)
    (hlast : ∀ c ∈ cs.getLast?, isBlank c = false) : trimChars cs = cs := by
  have drop_eq : ∀ {l : List Char}, (∀ c ∈ l.head?, isBlank c = false) →
      l.dropWhile isBlank = l := by
    intro l hl
    cases l with
    | nil => rfl
    | cons c rest => simp [hl c (by simp)]
  unfold trimChars
  rw [drop_eq hfirst, drop_eq (by simpa using hlast), List.reverse_reverse]

/-- Cut at every character that satisfies `cut`; there is one more piece than
there are cuts. -/
def pieces (cut : Char → Bool) : List Char → List (List Char)
  | [] => [[]]
  | c :: rest =>
    if cut c then [] :: pieces cut rest
    else match pieces cut rest with
      | [] => [[c]]
      | piece :: others => (c :: piece) :: others

def splitOn (separator : Char) (s : String) : List String :=
  (pieces (· == separator) s.toList).map String.ofList

def words (s : String) : List String :=
  ((pieces isBlank s.toList).filter (!·.isEmpty)).map String.ofList

/-- `needle` is a run of consecutive characters of the text. -/
def occursInChars (needle : List Char) : List Char → Bool
  | [] => needle.isEmpty
  | c :: rest => needle.isPrefixOf (c :: rest) || occursInChars needle rest

def occursIn (needle text : String) : Bool := occursInChars needle.toList text.toList

end Parley.Text
