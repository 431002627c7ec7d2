/-
Strings and numbers that are written out read back.

* `Document.readString_escaped` — a quoted string is read as the string, up to its closing
  quote;
* `Document.readNumber_extends` — what is read of a number depends on nothing that follows it;
* `Document.readNumber_toString` — a whole number of 64 bits is read as that number.

Design notes: a reader is handed the rest of the text, so that a part is read back is said
with what follows it, which for a number must not be a part of it.
-/
import Mathlib.Data.List.TakeWhile
import Parley.Document.Reader
import Parley.Json.Printer
import Parley.Proofs.Text.Numeral

namespace Parley.Document

/-! ### Strings -/

theorem hexValue?_hexDigit : ∀ n < 16, hexValue? (Json.hexDigit n) = some n := by
  decide

theorem joinGlyphs_unit {n : Nat} (h : n < 0x20) (glyphs : List Glyph) :
    joinGlyphs (.unit n :: glyphs) = (joinGlyphs glyphs).map (Char.ofNat n :: ·) := by
  have high : isHighSurrogate n = false := by simp [isHighSurrogate]; omega
  have low : isLowSurrogate n = false := by simp [isLowSurrogate]; omega
  rcases glyphs with _ | ⟨_ | _, _⟩ <;> simp [joinGlyphs, high, low]

section Escapes

variable (rest : List Char)

theorem readGlyphs_simple {e c : Char} (h : simpleEscape? e = some c) :
    readGlyphs ('\\' :: e :: rest) =
      (readGlyphs rest).map fun (glyphs, rest) => (.plain c :: glyphs, rest) := by
  have notUnit : e ≠ 'u' := by
    rintro rfl
    exact absurd h (by simp [simpleEscape?])
  rw [readGlyphs]
  · simp only [h]
  · exact fun _ _ _ _ _ heq _ => notUnit heq

theorem readGlyphs_unit {a b c d : Char} {n : Nat} (h : unit? a b c d = some n) :
    readGlyphs ('\\' :: 'u' :: a :: b :: c :: d :: rest) =
      (readGlyphs rest).map fun (glyphs, rest) => (.unit n :: glyphs, rest) := by
  rw [readGlyphs]
  simp only [h]

theorem readGlyphs_plain {c : Char} (hquote : c ≠ '"') (hslash : c ≠ '\\')
    (hcontrol : ¬ c.toNat < 0x20) : readGlyphs (c :: rest) =
      (readGlyphs rest).map fun (glyphs, rest) => (.plain c :: glyphs, rest) := by
  have sound : (c.toNat < 0x20 || c == '\\') = false := by simp [hslash]; omega
  rw [readGlyphs]
  · rw [sound]
    rfl
  · exact fun heq => hquote heq
  · exact fun _ _ _ _ _ heq _ => hslash heq
  · exact fun _ _ heq _ => hslash heq

end Escapes

/-- The glyph is what is read of a character that was escaped, and it means that character. -/
structure Glyph.StandsFor (g : Glyph) (c : Char) : Prop where
  read : ∀ rest, readGlyphs (Json.escape c ++ rest) =
    (readGlyphs rest).map fun (glyphs, rest) => (g :: glyphs, rest)
  join : ∀ glyphs, joinGlyphs (g :: glyphs) = (joinGlyphs glyphs).map (c :: ·)

/-- However a character is escaped, it is read back as one glyph. -/
theorem exists_glyph (c : Char) : ∃ g : Glyph, g.StandsFor c := by
  have simple {e : Char} (h : simpleEscape? e = some c) (hescape : Json.escape c = ['\\', e]) :
      ∃ g : Glyph, g.StandsFor c :=
    ⟨.plain c, fun rest => hescape ▸ readGlyphs_simple rest h, fun _ => rfl⟩
  have same {n : Nat} (h : c.toNat = n) : c = Char.ofNat n := h ▸ (Char.ofNat_toNat c).symm
  by_cases hquote : c = '"'
  · subst hquote
    exact simple (e := '"') rfl rfl
  by_cases hslash : c = '\\'
  · subst hslash
    exact simple (e := '\\') rfl rfl
  by_cases hback : c.toNat = 0x8
  · exact simple (e := 'b') (same hback ▸ rfl) (same hback ▸ rfl)
  by_cases hfeed : c.toNat = 0xC
  · exact simple (e := 'f') (same hfeed ▸ rfl) (same hfeed ▸ rfl)
  by_cases hline : c = '\n'
  · exact simple (e := 'n') (hline ▸ rfl) (hline ▸ rfl)
  by_cases hreturn : c = '\r'
  · exact simple (e := 'r') (hreturn ▸ rfl) (hreturn ▸ rfl)
  by_cases htab : c = '\t'
  · exact simple (e := 't') (htab ▸ rfl) (htab ▸ rfl)
  have escape : Json.escape c = if c.toNat < 0x20 then
      ['\\', 'u', '0', '0', Json.hexDigit (c.toNat / 16), Json.hexDigit (c.toNat % 16)]
      else [c] := by
    rw [Json.escape, if_neg hquote, if_neg hslash, if_neg hback, if_neg hfeed, if_neg hline,
      if_neg hreturn, if_neg htab]
  by_cases hcontrol : c.toNat < 0x20
  · have unit : unit? '0' '0' (Json.hexDigit (c.toNat / 16)) (Json.hexDigit (c.toNat % 16)) =
        some c.toNat := by
      rw [unit?, hexValue?_hexDigit _ (by omega), hexValue?_hexDigit _ (by omega)]
      show some (((0 * 16 + 0) * 16 + c.toNat / 16) * 16 + c.toNat % 16) = _
      congr 1
      omega
    refine ⟨.unit c.toNat, fun rest => ?_, fun glyphs => ?_⟩
    · rw [escape, if_pos hcontrol]
      exact readGlyphs_unit rest unit
    · rw [joinGlyphs_unit hcontrol, Char.ofNat_toNat]
  · refine ⟨.plain c, fun rest => ?_, fun _ => rfl⟩
    rw [escape, if_neg hcontrol]
    exact readGlyphs_plain rest hquote hslash hcontrol

/-- A quoted string reads back as the string, and nothing more is read. -/
theorem readString_escaped (s : String) (rest : List Char) :
    readString (s.toList.flatMap Json.escape ++ '"' :: rest) = some (some s, rest) := by
  have read (cs : List Char) : ∃ glyphs,
      readGlyphs (cs.flatMap Json.escape ++ '"' :: rest) = some (glyphs, rest) ∧
        joinGlyphs glyphs = some cs := by
    induction cs with
    | nil => exact ⟨[], rfl, rfl⟩
    | cons c cs ih =>
      obtain ⟨glyphs, hread, hjoin⟩ := ih
      obtain ⟨g, hg⟩ := exists_glyph c
      refine ⟨g :: glyphs, ?_, ?_⟩
      · rw [List.flatMap_cons, List.append_assoc, hg.read, hread]
        rfl
      · rw [hg.join, hjoin]
        rfl
  obtain ⟨glyphs, hread, hjoin⟩ := read s.toList
  rw [readString, hread]
  simp [hjoin]

/-! ### Numbers -/

/-- What can follow a number: nothing that could be a part of it. -/
def Stops (rest : List Char) : Prop :=
  ∀ c ∈ rest.head?, c.isDigit = false ∧ c ≠ '.' ∧ c ≠ 'e' ∧ c ≠ 'E'

/-- What a reader finds does not depend on what follows, if that stops a number. -/
def Extends {α : Type} (read : List Char → Option (α × List Char)) : Prop :=
  ∀ {cs tail rest a}, Stops rest → read cs = some (a, tail) →
    read (cs ++ rest) = some (a, tail ++ rest)

theorem digitSpan_append {rest : List Char} (hrest : Stops rest) (cs : List Char) :
    digitSpan (cs ++ rest) = ((digitSpan cs).1, (digitSpan cs).2 ++ rest) := by
  induction cs with
  | nil =>
    cases rest with
    | nil => rfl
    | cons c rest =>
      obtain ⟨hdigit, -⟩ := hrest c rfl
      simp [digitSpan, hdigit]
  | cons c cs ih =>
    rw [digitSpan, digitSpan, Prod.mk.injEq] at ih
    obtain ⟨htaken, hdropped⟩ := ih
    cases hdigit : c.isDigit with
    | true => simp [digitSpan, hdigit, htaken, hdropped]
    | false => simp [digitSpan, hdigit]

theorem readFraction_extends : Extends readFraction := by
  intro cs tail rest f hrest h
  cases cs with
  | nil =>
    obtain ⟨rfl, rfl⟩ := Prod.mk.inj (Option.some.inj h)
    cases rest with
    | nil => rfl
    | cons c rest =>
      obtain ⟨-, hpoint, -⟩ := hrest c rfl
      rw [List.nil_append]
      exact readFraction.eq_2 _ fun _ heq => hpoint (List.cons.inj heq).1
  | cons c cs =>
    by_cases hpoint : c = '.'
    · subst hpoint
      rw [List.cons_append]
      rw [readFraction] at h ⊢
      rw [digitSpan_append hrest]
      generalize digitSpan cs = span at h ⊢
      obtain ⟨_ | ⟨d, digits⟩, after⟩ := span
      · exact absurd h (by simp)
      · obtain ⟨rfl, rfl⟩ := Prod.mk.inj (Option.some.inj h)
        rfl
    · have other (cs : List Char) : readFraction (c :: cs) = some (none, c :: cs) :=
        readFraction.eq_2 _ fun _ heq => hpoint (List.cons.inj heq).1
      rw [other] at h
      obtain ⟨rfl, rfl⟩ := Prod.mk.inj (Option.some.inj h)
      exact other _

theorem readExponentDigits_extends (negative : Bool) : Extends (readExponentDigits negative) := by
  intro cs tail rest e hrest h
  rw [readExponentDigits] at h ⊢
  rw [digitSpan_append hrest]
  generalize digitSpan cs = span at h ⊢
  obtain ⟨_ | ⟨d, digits⟩, after⟩ := span
  · exact absurd h (by simp)
  · obtain ⟨rfl, rfl⟩ := Prod.mk.inj (Option.some.inj h)
    rfl

theorem readExponent_extends : Extends readExponent := by
  intro cs tail rest e hrest h
  cases cs with
  | nil =>
    obtain ⟨rfl, rfl⟩ := Prod.mk.inj (Option.some.inj h)
    cases rest with
    | nil => rfl
    | cons c rest =>
      obtain ⟨-, -, hsmall, hlarge⟩ := hrest c rfl
      rw [List.nil_append, readExponent.eq_def]
      simp [hsmall, hlarge]
  | cons c cs =>
    rw [List.cons_append]
    rw [readExponent.eq_def] at h ⊢
    simp only at h ⊢
    split at h
    · rename_i hmark
      rw [if_pos hmark]
      split at h
      · exact readExponentDigits_extends true hrest h
      · exact readExponentDigits_extends false hrest h
      · rename_i hminus hplus
        cases cs with
        | nil => exact absurd h (by simp [readExponentDigits, digitSpan])
        | cons s cs =>
          rw [List.cons_append]
          split
          · rename_i heq
            exact absurd (congrArg (· :: cs) (List.cons.inj heq).1) (hminus cs)
          · rename_i heq
            exact absurd (congrArg (· :: cs) (List.cons.inj heq).1) (hplus cs)
          · exact readExponentDigits_extends false hrest h
    · rename_i hmark
      rw [if_neg hmark]
      obtain ⟨rfl, rfl⟩ := Prod.mk.inj (Option.some.inj h)
      rfl

/-- A minus sign, if there is one, and what follows it. -/
def splitSign : List Char → Bool × List Char
  | '-' :: rest => (true, rest)
  | rest => (false, rest)

theorem splitSign_append {cs : List Char} (hcs : cs ≠ []) (rest : List Char) :
    splitSign (cs ++ rest) = ((splitSign cs).1, (splitSign cs).2 ++ rest) := by
  obtain ⟨c, cs, rfl⟩ := List.exists_cons_of_ne_nil hcs
  by_cases hminus : c = '-'
  · subst hminus
    rfl
  · have other (cs : List Char) : splitSign (c :: cs) = (false, c :: cs) :=
      splitSign.eq_2 _ fun _ heq => hminus (List.cons.inj heq).1
    rw [List.cons_append, other, other]
    rfl

theorem readNumber_eq (cs : List Char) : readNumber cs =
    match digitSpan (splitSign cs).2 with
    | ([], _) => none
    | (0 :: _ :: _, _) => none
    | (whole, rest) =>
      match readFraction rest with
      | none => none
      | some (fraction, rest) =>
        match readExponent rest with
        | none => none
        | some (exponent, rest) =>
          some (ofNumeral (splitSign cs).1 whole fraction exponent, rest) := rfl

theorem readNumber_extends : Extends readNumber := by
  intro cs tail rest d hrest h
  have hcs : cs ≠ [] := by
    rintro rfl
    exact absurd h (by simp [readNumber, digitSpan])
  rw [readNumber_eq] at h ⊢
  rw [splitSign_append hcs, digitSpan_append hrest]
  generalize digitSpan (splitSign cs).2 = span at h ⊢
  obtain ⟨whole, after⟩ := span
  split at h
  · exact absurd h (by simp)
  · exact absurd h (by simp)
  · rename_i hempty hzero hspan
    obtain ⟨rfl, rfl⟩ := Prod.mk.inj hspan
    split at h
    · exact absurd h (by simp)
    · rename_i fraction after' hfraction
      split at h
      · exact absurd h (by simp)
      · rename_i exponent after'' hexponent
        obtain ⟨rfl, rfl⟩ := Prod.mk.inj (Option.some.inj h)
        simp only [readFraction_extends hrest hfraction, readExponent_extends hrest hexponent]

/-! ### Whole numbers -/

theorem digitChar_ne_zero : ∀ n < 10, 0 < n → n.digitChar ≠ '0' := by decide

theorem head?_toDigits {n : Nat} (h : 0 < n) : (Nat.toDigits 10 n).head? ≠ some '0' := by
  -- The first digit stays when the last one is cut off, until it is the only one.
  induction n using Nat.strongRecOn with
  | _ n ih =>
    rcases Nat.lt_or_ge n 10 with hsmall | hlarge
    · rw [Nat.toDigits_of_lt_base hsmall, List.head?_cons]
      exact fun heq => digitChar_ne_zero n hsmall h (Option.some.inj heq)
    · rw [Nat.toDigits_of_base_le (by decide) hlarge,
        List.head?_append_of_ne_nil _ Nat.toDigits_ne_nil]
      exact ih (n / 10) (by omega) (by omega)

theorem digitValue_eq_zero {c : Char} (hc : c.isDigit = true) (h : digitValue c = 0) : c = '0' := by
  obtain ⟨hlow, -⟩ := Text.isDigit_iff.mp hc
  have : c.toNat - 48 = 0 := h
  exact Char.toNat_inj.mp (by show c.toNat = 48; omega)

theorem digitSpan_of_isDigit {cs : List Char} (h : ∀ c ∈ cs, c.isDigit = true) :
    digitSpan cs = (cs.map digitValue, []) := by
  rw [digitSpan, List.takeWhile_eq_self_iff.mpr h, List.dropWhile_eq_nil_iff.mpr h]

theorem wholeValue_map (cs : List Char) :
    wholeValue (cs.map digitValue) = Nat.ofDigitChars 10 cs 0 := by
  rw [wholeValue, List.foldl_map, Nat.ofDigitChars]
  congr 1
  funext n c
  rw [Nat.mul_comm]
  rfl

/-- Digits alone are read as a whole number, since they do not begin with a spare zero. -/
theorem readNumber_digits {cs : List Char} {negative : Bool} {n : Nat}
    (h : splitSign cs = (negative, Nat.toDigits 10 n)) :
    readNumber cs =
      some (ofNumeral negative ((Nat.toDigits 10 n).map digitValue) none none, []) := by
  have digit : ∀ c ∈ Nat.toDigits 10 n, c.isDigit = true := fun c hc =>
    Nat.isDigit_of_mem_toDigits (by decide) (by decide) hc
  rw [readNumber_eq, h]
  show (match digitSpan (Nat.toDigits 10 n) with
    | ([], _) => none
    | (0 :: _ :: _, _) => none
    | (whole, rest) => _) = _
  rw [digitSpan_of_isDigit digit]
  split
  · rename_i heq
    exact absurd (List.map_eq_nil_iff.mp (Prod.mk.inj heq).1) Nat.toDigits_ne_nil
  · rename_i second others _ heq
    -- Two digits or more, and the first of them a zero.
    obtain ⟨hdigits, -⟩ := Prod.mk.inj heq
    cases hcases : Nat.toDigits 10 n with
    | nil => exact absurd hcases Nat.toDigits_ne_nil
    | cons c cs =>
      rw [hcases, List.map_cons, List.cons.injEq] at hdigits
      have zero := digitValue_eq_zero (digit c (hcases ▸ List.mem_cons_self)) hdigits.1
      rcases Nat.eq_zero_or_pos n with rfl | hpos
      · obtain ⟨-, rfl⟩ := List.cons.inj hcases
        exact absurd hdigits.2 (by simp)
      · exact absurd (by rw [hcases, zero]; rfl) (head?_toDigits hpos)
  · rename_i heq
    obtain ⟨rfl, rfl⟩ := Prod.mk.inj heq
    rfl

/-- What is written of a whole number of 64 bits is read as that number. -/
theorem readNumber_toString {n : Int} (hlow : Text.int64Min ≤ n) (hhigh : n ≤ Text.uint64Max) :
    readNumber (toString n).toList = some (int n, []) := by
  have value (k : Nat) : wholeValue ((Nat.toDigits 10 k).map digitValue) = k := by
    rw [wholeValue_map, Nat.ofDigitChars_ten_toDigits]
  rw [Text.toList_toString]
  split
  · rename_i hsign
    have unsigned : splitSign (Nat.toDigits 10 n.toNat) = (false, Nat.toDigits 10 n.toNat) := by
      refine splitSign.eq_2 _ fun rest heq => ?_
      have digit := Nat.isDigit_of_mem_toDigits (b := 10) (n := n.toNat) (c := '-') (by decide)
        (by decide) (heq ▸ List.mem_cons_self)
      exact absurd digit (by decide)
    rw [readNumber_digits unsigned, ofNumeral]
    simp only [value]
    have small : n.toNat ≤ Text.uint64Max := by omega
    rw [if_neg (by simp), if_neg (by simp), if_pos small, Int.toNat_of_nonneg hsign]
  · rename_i hsign
    rw [readNumber_digits (n := (-n).toNat) rfl, ofNumeral]
    simp only [value]
    have exact : -(((-n).toNat : Nat) : Int) = n := by omega
    rw [if_neg (by simp), if_pos trivial, exact, if_pos (by simp; omega)]

end Parley.Document
