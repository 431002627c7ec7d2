/-
What a line of input picks, whatever the texts and the numbers are.

* `selectText_of_occursIn`, `selectChoice_append` — a choice whose text contains a word of the
  input is picked if none before it is, and choices that follow change nothing that was picked;
* `Text.Echoes.normalized` — blanks around a text and the case of its ASCII letters are lost when
  it is read as input;
* `Choice.matching` — so saying what is written in a choice picks it or one before it;
* `selectChoice_of_mem`, `selectChoice_of_not_mem` — a numeral picks by its number as far as it
  fits into 64 bits, and further out it is looked for in the texts like a word;
* `Choice.numerals` — what that leaves of the rule that numbers never pick by text.
-/
import Parley.Proofs.Text.Numeral
import Parley.Selection

namespace Parley

variable {policy : NumericSelection} {choices : List Choice}

theorem selectChoice_number {input : String} {n : Int}
    (h : Text.integer? (Text.lowercase (Text.trim input)) = some n) :
    selectChoice policy input choices = selectNumber policy n choices := by
  rw [selectChoice]
  simp only [h]

theorem selectChoice_text {input : String}
    (h : Text.integer? (Text.lowercase (Text.trim input)) = none) :
    selectChoice policy input choices =
      selectText (significantWords (Text.lowercase (Text.trim input))) choices := by
  rw [selectChoice]
  simp only [h]

/-! ### The first that fits -/

theorem selectText_of_occursIn {words : List String} {i : Nat} {c : Choice}
    (hc : choices[i]? = some c) {word : String} (hword : word ∈ words)
    (hoccurs : Text.occursIn word (Text.lowercase c.text) = true) :
    ∃ j c', j ≤ i ∧ choices[j]? = some c' ∧ selectText words choices = some c' := by
  let fits : Choice → Bool := fun c =>
    words.any fun w => Text.occursIn w (Text.lowercase c.text)
  have hfits : fits c = true := List.any_eq_true.mpr ⟨word, hword, hoccurs⟩
  have hsome : (choices.find? fits).isSome = true :=
    List.find?_isSome.mpr ⟨c, List.mem_of_getElem? hc, hfits⟩
  obtain ⟨c', hfound⟩ := Option.isSome_iff_exists.mp hsome
  obtain ⟨-, j, hj, hget, hbefore⟩ := List.find?_eq_some_iff_getElem.mp hfound
  have notLater : j ≤ i := by
    by_contra hlater
    have before := hbefore i (Nat.lt_of_not_le hlater)
    obtain ⟨hi, heq⟩ := List.getElem?_eq_some_iff.mp hc
    rw [heq, hfits] at before
    exact absurd before (by decide)
  exact ⟨j, c', notLater, List.getElem?_eq_some_iff.mpr ⟨hj, hget⟩, hfound⟩

theorem find?_append_of_some {p : Choice → Bool} {c : Choice} (h : choices.find? p = some c)
    (more : List Choice) : (choices ++ more).find? p = some c := by
  rw [List.find?_append, h, Option.some_or]

theorem selectNumber_append {n : Int} {c : Choice} (h : selectNumber policy n choices = some c)
    (more : List Choice) : selectNumber policy n (choices ++ more) = some c := by
  cases policy with
  | ordinal =>
    rw [selectNumber] at h ⊢
    obtain ⟨hlow, hget⟩ := Option.ite_none_right_eq_some.mp h
    rw [if_pos hlow, List.getElem?_append_left (List.getElem?_eq_some_iff.mp hget).1, hget]
  | choiceId => exact find?_append_of_some h more

theorem selectChoice_append {input : String} {c : Choice}
    (h : selectChoice policy input choices = some c) (more : List Choice) :
    selectChoice policy input (choices ++ more) = some c := by
  cases hread : Text.integer? (Text.lowercase (Text.trim input)) with
  | some n =>
    rw [selectChoice_number hread] at h ⊢
    exact selectNumber_append h more
  | none =>
    rw [selectChoice_text hread] at h ⊢
    exact find?_append_of_some h more

/-! ### Saying what is written -/

/-- The text with blanks around it and the case of some ASCII letters changed. -/
def Text.Echoes (said text : String) : Prop :=
  ∃ before core after, said.toList = before ++ core ++ after ∧ AllBlank before ∧
    AllBlank after ∧ core.map Char.toLower = text.toList.map Char.toLower

namespace Text

theorem trimChars_map_toLower (cs : List Char) :
    trimChars (cs.map Char.toLower) = (trimChars cs).map Char.toLower := by
  have unseen : isBlank ∘ Char.toLower = isBlank := funext isBlank_toLower
  rw [trimChars, trimChars, List.dropWhile_map, unseen, ← List.map_reverse, List.dropWhile_map,
    unseen, List.map_reverse]

theorem Echoes.normalized {said text : String} (h : Echoes said text) :
    lowercase (trim said) = lowercase (trim text) := by
  obtain ⟨before, core, after, hsaid, hbefore, hafter, hcore⟩ := h
  have trimmed : (trimChars core).map Char.toLower = (trimChars text.toList).map Char.toLower := by
    rw [← trimChars_map_toLower, hcore, trimChars_map_toLower]
  rw [lowercase, lowercase, trim, trim, String.toList_ofList, String.toList_ofList, hsaid,
    trimChars_surrounded hbefore hafter, ← Lowercase.lowerChars_map_toLower, trimmed,
    Lowercase.lowerChars_map_toLower]

theorem occursIn_lowercase_of_mem_words {word text : String}
    (h : word ∈ words (lowercase (trim text))) : occursIn word (lowercase text) = true := by
  have inside := infix_of_mem_words h
  rw [lowercase, trim, String.toList_ofList, String.toList_ofList] at inside
  rw [occursIn_iff, lowercase, String.toList_ofList]
  exact inside.trans (infix_lowered_trimChars text.toList)

end Text

namespace Choice

/-- Whoever says what is written in a choice, in whatever case and with whatever blanks around it,
picks that choice or one before it, unless it reads as a number or has no word that counts.  What
a line of input picks it also picks when more choices follow. -/
theorem matching (policy : NumericSelection) (choices : List Choice) :
    (∀ (i : Nat) (c : Choice) (said : String), choices[i]? = some c → Text.Echoes said c.text →
      Text.integer? (Text.lowercase (Text.trim c.text)) = none →
      (∃ word ∈ Text.words (Text.lowercase (Text.trim c.text)), 2 < word.length) →
      ∃ j c', j ≤ i ∧ choices[j]? = some c' ∧ selectChoice policy said choices = some c') ∧
    ∀ input c more, selectChoice policy input choices = some c →
      selectChoice policy input (choices ++ more) = some c := by
  refine ⟨fun i c said hc hsaid hnumber ⟨word, hword, hlong⟩ => ?_,
    fun input c more h => selectChoice_append h more⟩
  have occurs := Text.occursIn_lowercase_of_mem_words hword
  rw [← hsaid.normalized] at hnumber hword
  have significant : word ∈ significantWords (Text.lowercase (Text.trim said)) :=
    List.mem_filter.mpr ⟨hword, decide_eq_true hlong⟩
  rw [selectChoice_text hnumber]
  exact selectText_of_occursIn hc significant occurs

/-- The last sigma of a word is lowered in its own way, whatever blanks come after it. -/
theorem matching_sigma :
    let choices : List Choice := [
      { id := "leave", text := "Leave" },
      { id := "ask", text := "Ask about ΟΔΥΣΣΕΥΣ " }]
    ∃ j c', j ≤ 1 ∧ choices[j]? = some c' ∧
      selectChoice .ordinal "\taSK abOUT ΟΔΥΣΣΕΥΣ \n" choices = some c' := by
  intro choices
  have said : Text.Echoes "\taSK abOUT ΟΔΥΣΣΕΥΣ \n" "Ask about ΟΔΥΣΣΕΥΣ " :=
    ⟨['\t'], "aSK abOUT ΟΔΥΣΣΕΥΣ ".toList, ['\n'], rfl, by decide, by decide, by decide⟩
  exact (matching .ordinal choices).1 1 _ _ rfl said (by decide +kernel)
    ⟨"οδυσσευς", by decide +kernel, by decide⟩

end Choice

/-! ### Numerals -/

section Numerals

variable {input : String} {n : Int} (h : Text.Denotes (Text.trimChars input.toList) n)
include h

theorem Text.Denotes.normalized : Text.lowercase (Text.trim input) = Text.trim input := by
  rw [Text.lowercase, Text.trim, String.toList_ofList, h.lowerChars_eq]

theorem selectChoice_of_mem (hmem : Text.int64Min ≤ n ∧ n ≤ Text.int64Max) :
    selectChoice policy input choices = selectNumber policy n choices := by
  have read : Text.integer? (Text.trim input) = some n := by
    rw [Text.integer?_eq_some_iff, Text.trim, String.toList_ofList]
    exact ⟨h, hmem⟩
  rw [← h.normalized] at read
  exact selectChoice_number read

/-- A numeral is its only word, and has more than two characters if it is out of range. -/
theorem selectChoice_of_not_mem (hout : ¬ (Text.int64Min ≤ n ∧ n ≤ Text.int64Max)) :
    selectChoice policy input choices =
      choices.find? fun c => Text.occursIn (Text.trim input) (Text.lowercase c.text) := by
  have unread : Text.integer? (Text.trim input) = none := by
    cases hread : Text.integer? (Text.trim input) with
    | none => rfl
    | some n' =>
      obtain ⟨hn', hmem⟩ := Text.integer?_eq_some_iff.mp hread
      rw [Text.trim, String.toList_ofList] at hn'
      obtain rfl := h.unique hn'
      exact absurd hmem hout
  have long : 2 < (Text.trimChars input.toList).length := by
    refine h.two_lt_length ?_
    have low : Text.int64Min = -9223372036854775808 := rfl
    have high : Text.int64Max = 9223372036854775807 := rfl
    omega
  have word : significantWords (Text.trim input) = [Text.trim input] := by
    have nonempty : (Text.trimChars input.toList).isEmpty = false := by
      rw [List.isEmpty_eq_false_iff]
      exact h.ne_nil
    have whole : Text.words (Text.trim input) = [Text.trim input] := by
      rw [Text.words, Text.trim, String.toList_ofList, Text.pieces_of_uncut h.isBlank_eq_false]
      simp [nonempty]
    rw [significantWords, whole]
    simp [Text.trim, long]
  rw [← h.normalized] at unread
  rw [selectChoice_text unread, h.normalized, word, selectText]
  simp only [List.any_cons, List.any_nil, Bool.or_false]

end Numerals

namespace Choice

/-- A numeral that fits into 64 bits picks by its number: the choice at that position if there is
one, or a choice whose id is a numeral for the same number.  Any other numeral picks the first
choice whose text contains it. -/
theorem numerals {input : String} {n : Int} (h : Text.Denotes (Text.trimChars input.toList) n)
    (choices : List Choice) :
    (Text.int64Min ≤ n ∧ n ≤ Text.int64Max →
      selectChoice .ordinal input choices = (if 1 ≤ n then choices[n.toNat - 1]? else none) ∧
      ∀ c, selectChoice .choiceId input choices = some c →
        c ∈ choices ∧ Text.Denotes (Text.trimChars c.id.toList) n) ∧
    (¬ (Text.int64Min ≤ n ∧ n ≤ Text.int64Max) → ∀ policy,
      selectChoice policy input choices =
        choices.find? fun c => Text.occursIn (Text.trim input) (Text.lowercase c.text)) := by
  refine ⟨fun hmem => ⟨selectChoice_of_mem h hmem, fun c hc => ?_⟩,
    fun hout policy => selectChoice_of_not_mem h hout⟩
  rw [selectChoice_of_mem h hmem] at hc
  have same := List.find?_some hc
  obtain ⟨hid, -⟩ := Text.integer?_eq_some_iff.mp (beq_iff_eq.mp same)
  rw [Text.trim, String.toList_ofList] at hid
  exact ⟨List.mem_of_find?_eq_some hc, hid⟩

def operators : List Choice := [
  { id := "1", text := "Dial 9223372036854775807" },
  { id := "two", text := "Dial 9223372036854775808" }]

theorem numerals_position :
    Text.Denotes (Text.trimChars " +02 ".toList) 2 ∧
      selectChoice .ordinal " +02 " operators = operators[1]? := by
  have two : Text.Denotes (Text.trimChars " +02 ".toList) 2 :=
    Text.signed?_eq_some_iff.mp (by decide)
  exact ⟨two, ((numerals two operators).1 (by decide)).1⟩

/-- The least number that does not fit picks by text, though there are no more than two choices. -/
theorem numerals_dialled :
    Text.Denotes (Text.trimChars "9223372036854775808".toList) 9223372036854775808 ∧
      operators[9223372036854775808 - 1]? = none ∧
      selectChoice .ordinal "9223372036854775808" operators = operators[1]? ∧
      selectChoice .choiceId "9223372036854775808" operators = operators[1]? ∧
      Text.signed? "two".toList = none := by
  refine ⟨Text.signed?_eq_some_iff.mp (by decide), ?_, ?_, ?_, ?_⟩
  · exact List.getElem?_eq_none (by decide)
  · decide +kernel
  · decide +kernel
  · decide

end Choice

end Parley
