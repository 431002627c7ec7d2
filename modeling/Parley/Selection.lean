/-
Which choice a line of input picks.

An input that is a number picks by position or by the number that is the choice's
id, and never by text.  Any other input picks the first choice whose text contains
one of its words of more than two characters.
-/
import Parley.Text.Lowercase
import Parley.Tree

namespace Parley

/-- How a number picks a choice. -/
inductive NumericSelection where
  /-- The position among the choices shown, from one. -/
  | ordinal
  /-- The choice whose id is the same number. -/
  | choiceId
  deriving DecidableEq, Inhabited

namespace NumericSelection

def name : NumericSelection → String
  | ordinal => "ordinal"
  | choiceId => "choice_id"

def ofName? (s : String) : Option NumericSelection := [ordinal, choiceId].find? (·.name = s)

def toJson (n : NumericSelection) : Json := .str n.name

def decode (d : Document) : Option NumericSelection := d.caseName?.bind ofName?

end NumericSelection

/-- The choice that a number picks. -/
def selectNumber (policy : NumericSelection) (n : Int) (choices : List Choice) : Option Choice :=
  match policy with
  | .ordinal => if 1 ≤ n then choices[n.toNat - 1]? else none
  | .choiceId => choices.find? fun c => Text.integer? (Text.trim c.id) == some n

/-- Words that count when a text is matched. -/
def significantWords (input : String) : List String :=
  (Text.words input).filter fun w => 2 < w.length

/-- The first choice whose text contains one of the words. -/
def selectText (words : List String) (choices : List Choice) : Option Choice :=
  choices.find? fun c =>
    let text := Text.lowercase c.text
    words.any fun w => Text.occursIn w text

/-- The choice picked among those given, in the order shown. -/
def selectChoice (policy : NumericSelection) (input : String) (choices : List Choice) :
    Option Choice :=
  let normalized := Text.lowercase (Text.trim input)
  match Text.integer? normalized with
  | some n => selectNumber policy n choices
  | none => selectText (significantWords normalized) choices

end Parley
