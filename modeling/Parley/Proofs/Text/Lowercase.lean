/-
Lowering a text piece by piece.

A capital sigma is lowered according to the letters around it, so a part of a text can be lowered
otherwise than the same characters by themselves.  Blanks are neither cased nor case-ignorable:
nothing is seen across them.

* `Lowercase.lowerChars_append_cons` — the two sides of a blank are lowered for themselves;
* `Text.Bounds.lowered` — so a word of a text is lowered to a word of the lowered text;
* `Text.infix_lowered_trimChars` — and trimming a text before it is lowered only takes blanks
  away;
* `Lowercase.lowerChars_map_toLower` — the case of ASCII letters counts for nothing.
-/
import Parley.Proofs.Text.Words
import Parley.Text.Lowercase

namespace Parley.Text

variable {cs ds w before after : List Char} {b c : Char}

/-! ### The characters that matter -/

def blankCodes : List Nat :=
  [0x9, 0xA, 0xB, 0xC, 0xD, 0x20, 0x85, 0xA0, 0x1680, 0x2000, 0x2001, 0x2002, 0x2003, 0x2004,
    0x2005, 0x2006, 0x2007, 0x2008, 0x2009, 0x200A, 0x2028, 0x2029, 0x202F, 0x205F, 0x3000]

theorem isBlank_iff : isBlank c = true ↔ c.toNat ∈ blankCodes := by
  simp only [isBlank, blankCodes, Bool.or_eq_true, Bool.and_eq_true, decide_eq_true_eq,
    beq_iff_eq, List.mem_cons, List.not_mem_nil, or_false]
  omega

theorem toNat_ofNat (n : Nat) : (Char.ofNat n).toNat = n ∨ (Char.ofNat n).toNat = 0 := by
  by_cases h : n.isValidChar
  · rw [Char.ofNat, dif_pos h]
    exact .inl rfl
  · rw [Char.ofNat, dif_neg h]
    exact .inr rfl

/-- What holds of the blanks one by one. -/
theorem forall_isBlank {P : Char → Prop} (h : ∀ n ∈ blankCodes, P (Char.ofNat n))
    (hc : isBlank c = true) : P c := by
  have hp := h c.toNat (isBlank_iff.mp hc)
  rwa [Char.ofNat_toNat] at hp

/-- Only capital ASCII letters are changed by `Char.toLower`. -/
theorem toLower_cases (c : Char) : c.toLower = c ∨ c.toNat ∈ List.range' 65 26 := by
  rw [Char.toLower.eq_def]
  split
  · rename_i hupper
    have hupper : 65 ≤ c.toNat ∧ c.toNat ≤ 90 := hupper
    exact .inr (List.mem_range'_1.mpr (by omega))
  · exact .inl rfl

/-- What does not tell the capital ASCII letters from the small ones. -/
theorem map_toLower {α : Type} {f : Char → α}
    (h : ∀ n ∈ List.range' 65 26, f (Char.ofNat n).toLower = f (Char.ofNat n)) (c : Char) :
    f c.toLower = f c := by
  rcases toLower_cases c with heq | hupper
  · rw [heq]
  · have hf := h c.toNat hupper
    rwa [Char.ofNat_toNat] at hf

theorem isBlank_toLower (c : Char) : isBlank c.toLower = isBlank c :=
  map_toLower (by decide) c

namespace Lowercase

/-- All that is asked of a character but whether it is one of two special letters. -/
def traits (c : Char) : Bool × Bool × Char := (isCased c, isCaseIgnorable c, lowerChar c)

/-- What is read off the tables, of blanks and of capital ASCII letters.  No run of capital letters
is lowered to a blank. -/
theorem tables :
    (∀ n ∈ blankCodes, traits (Char.ofNat n) = (false, false, Char.ofNat n)) ∧
    (∀ n ∈ List.range' 65 26, traits (Char.ofNat n).toLower = traits (Char.ofNat n)) ∧
    ∀ run ∈ lowerRuns, ∀ n ∈ blankCodes,
      n < run.2.2.2 ∨ run.2.2.2 + (run.2.1 - run.1) < n := by
  decide +kernel

theorem traits_blank (hb : isBlank b = true) : traits b = (false, false, b) :=
  forall_isBlank (P := fun b => traits b = (false, false, b)) tables.1 hb

theorem traits_toLower (c : Char) : traits c.toLower = traits c := map_toLower tables.2.1 c

theorem isCased_blank (hb : isBlank b = true) : isCased b = false :=
  congrArg (·.1) (traits_blank hb)

theorem isCaseIgnorable_blank (hb : isBlank b = true) : isCaseIgnorable b = false :=
  congrArg (·.2.1) (traits_blank hb)

theorem lowerChar_blank (hb : isBlank b = true) : lowerChar b = b :=
  congrArg (·.2.2) (traits_blank hb)

theorem isCased_toLower (c : Char) : isCased c.toLower = isCased c :=
  congrArg (·.1) (traits_toLower c)

theorem isCaseIgnorable_toLower (c : Char) : isCaseIgnorable c.toLower = isCaseIgnorable c :=
  congrArg (·.2.1) (traits_toLower c)

theorem lowerChar_toLower (c : Char) : lowerChar c.toLower = lowerChar c :=
  congrArg (·.2.2) (traits_toLower c)

theorem blank_ne (hb : isBlank b = true) : b ≠ 'Σ' ∧ b ≠ 'İ' :=
  forall_isBlank (P := fun b => b ≠ 'Σ' ∧ b ≠ 'İ') (by decide) hb

theorem toLower_eq_sigma : c.toLower = 'Σ' ↔ c = 'Σ' := by
  have same := map_toLower (f := fun c => decide (c = 'Σ')) (by decide) c
  simpa using same

theorem toLower_eq_dotted : c.toLower = 'İ' ↔ c = 'İ' := by
  have same := map_toLower (f := fun c => decide (c = 'İ')) (by decide) c
  simpa using same

theorem isBlank_lowerChar (hc : isBlank c = false) : isBlank (lowerChar c) = false := by
  rw [lowerChar]
  split
  · rw [isBlank_toLower, hc]
  · split
    · rename_i first _ _ target hrun
      have inside := List.find?_some hrun
      simp only [Bool.and_eq_true, decide_eq_true_eq, beq_iff_eq] at inside
      rw [Bool.eq_false_iff, ne_eq, isBlank_iff]
      intro hblank
      have away := tables.2.2 _ (List.mem_of_find?_eq_some hrun) _ hblank
      -- The code point of the character is the one that the table gives, if there is one.
      rcases toNat_ofNat (target + (c.toNat - first)) with hcode | hcode
      · rw [hcode] at away
        dsimp only at away
        omega
      · rw [hcode] at hblank
        exact absurd hblank (by decide)
    · exact hc

/-! ### Blanks separate -/

theorem meetsCased_append_cons (hb : isBlank b = true) (cs ds : List Char) :
    meetsCased (cs ++ b :: ds) = meetsCased cs := by
  induction cs with
  | nil =>
    simp [meetsCased, isCaseIgnorable_blank hb, isCased_blank hb]
  | cons c rest ih => rw [List.cons_append, meetsCased, ih, meetsCased]

/-- What stands before a blank is not seen from behind it. -/
theorem lowerChars_forget (hb : isBlank b = true) (cs before ds : List Char) :
    lowerChars (cs ++ b :: before) ds = lowerChars cs ds := by
  induction ds generalizing cs with
  | nil => rfl
  | cons d rest ih =>
    rw [lowerChars, lowerChars, meetsCased_append_cons hb, ← List.cons_append, ih]

theorem lowerChars_cons_blank (hb : isBlank b = true) (before ds : List Char) :
    lowerChars before (b :: ds) = b :: lowerChars [] ds := by
  rw [lowerChars, if_neg (blank_ne hb).1, if_neg (blank_ne hb).2, lowerChar_blank hb,
    ← List.nil_append (b :: before), lowerChars_forget hb]
  rfl

theorem lowerChars_append_cons (hb : isBlank b = true) (before cs ds : List Char) :
    lowerChars before (cs ++ b :: ds) = lowerChars before cs ++ b :: lowerChars [] ds := by
  induction cs generalizing before with
  | nil => exact lowerChars_cons_blank hb before ds
  | cons c rest ih =>
    rw [List.cons_append, lowerChars, meetsCased_append_cons hb, ih, lowerChars, List.append_assoc]

/-- Lowering makes no blanks. -/
theorem isBlank_lowerChars (h : ∀ c ∈ cs, isBlank c = false) (before : List Char) :
    ∀ c ∈ lowerChars before cs, isBlank c = false := by
  induction cs generalizing before with
  | nil => exact fun c hc => absurd hc List.not_mem_nil
  | cons c rest ih =>
    obtain ⟨hc, hrest⟩ := List.forall_mem_cons.mp h
    rw [lowerChars]
    refine List.forall_mem_append.mpr ⟨?_, ih hrest (c :: before)⟩
    split
    · split
      · exact List.forall_mem_singleton.mpr (by decide)
      · exact List.forall_mem_singleton.mpr (by decide)
    · split
      · exact List.forall_mem_cons.mpr ⟨by decide, List.forall_mem_singleton.mpr (by decide)⟩
      · exact List.forall_mem_singleton.mpr (isBlank_lowerChar hc)

/-- Below the letters there is nothing to lower. -/
theorem lowerChars_of_lt (h : ∀ c ∈ cs, c.toNat < 65) (before : List Char) :
    lowerChars before cs = cs := by
  induction cs generalizing before with
  | nil => rfl
  | cons c rest ih =>
    obtain ⟨hc, hrest⟩ := List.forall_mem_cons.mp h
    have notSigma : c ≠ 'Σ' := by
      rintro rfl
      exact absurd hc (by decide)
    have notDotted : c ≠ 'İ' := by
      rintro rfl
      exact absurd hc (by decide)
    have small : c.toLower = c := by
      rcases toLower_cases c with heq | hupper
      · exact heq
      · have := List.mem_range'_1.mp hupper
        omega
    rw [lowerChars, if_neg notSigma, if_neg notDotted, lowerChar, if_pos (by omega), small,
      ih hrest]
    rfl

/-! ### The case of ASCII letters -/

theorem meetsCased_map_toLower (cs : List Char) :
    meetsCased (cs.map Char.toLower) = meetsCased cs := by
  induction cs with
  | nil => rfl
  | cons c rest ih =>
    rw [List.map_cons, meetsCased, isCaseIgnorable_toLower, isCased_toLower, ih, meetsCased]

theorem lowerChars_map_toLower (before cs : List Char) :
    lowerChars (before.map Char.toLower) (cs.map Char.toLower) = lowerChars before cs := by
  induction cs generalizing before with
  | nil => rfl
  | cons c rest ih =>
    rw [List.map_cons, lowerChars, ← List.map_cons, ih, lowerChars]
    simp only [toLower_eq_sigma, toLower_eq_dotted, meetsCased_map_toLower, lowerChar_toLower]

end Lowercase

open Lowercase

/-! ### Words and trimmed texts -/

theorem lowerChars_append_blanks (hds : AllBlank ds) (cs : List Char) :
    lowerChars [] (cs ++ ds) = lowerChars [] cs ++ ds := by
  induction ds generalizing cs with
  | nil => simp
  | cons b rest ih =>
    obtain ⟨hb, hrest⟩ := List.forall_mem_cons.mp hds
    have alone : lowerChars [] rest = rest := ih hrest []
    rw [lowerChars_append_cons hb, alone]

theorem lowerChars_blanks_append (hds : AllBlank ds) (cs : List Char) :
    lowerChars [] (ds ++ cs) = ds ++ lowerChars [] cs := by
  induction ds with
  | nil => rfl
  | cons b rest ih =>
    obtain ⟨hb, hrest⟩ := List.forall_mem_cons.mp hds
    rw [List.cons_append, lowerChars_cons_blank hb, ih hrest, List.cons_append]

theorem infix_lowered_trimChars (cs : List Char) :
    lowerChars [] (trimChars cs) <:+: lowerChars [] cs := by
  obtain ⟨before, after, heq, hbefore, hafter⟩ := exists_trimChars cs
  have lowered := congrArg (lowerChars []) heq
  rw [lowerChars_append_blanks hafter, lowerChars_blanks_append hbefore] at lowered
  exact ⟨before, after, lowered.symm⟩

namespace Bounds

theorem lowered (h : Bounds isBlank cs before w after) :
    Bounds isBlank (lowerChars [] cs) (lowerChars [] before) (lowerChars [] w)
      (lowerChars [] after) := by
  obtain ⟨rfl, hlast, hfirst⟩ := h
  -- A blank at the end of what stands before is still there, and so is one after the word.
  have left : lowerChars [] (before ++ (w ++ after)) =
      lowerChars [] before ++ lowerChars [] (w ++ after) ∧
      ∀ c ∈ (lowerChars [] before).getLast?, isBlank c = true := by
    rcases List.eq_nil_or_concat before with rfl | ⟨before, b, rfl⟩
    · exact ⟨rfl, by simp [lowerChars]⟩
    · have hb : isBlank b = true := hlast b (by simp)
      rw [List.concat_eq_append, List.append_assoc, List.singleton_append,
        lowerChars_append_cons hb, lowerChars_append_cons hb]
      exact ⟨by simp [lowerChars], by simpa [lowerChars] using hb⟩
  have right : lowerChars [] (w ++ after) = lowerChars [] w ++ lowerChars [] after ∧
      ∀ c ∈ (lowerChars [] after).head?, isBlank c = true := by
    cases after with
    | nil => exact ⟨by simp [lowerChars], by simp [lowerChars]⟩
    | cons b after =>
      have hb : isBlank b = true := hfirst b rfl
      rw [lowerChars_append_cons hb, lowerChars_cons_blank hb]
      exact ⟨rfl, by simpa using hb⟩
  refine ⟨?_, left.2, right.2⟩
  rw [List.append_assoc, left.1, right.1, List.append_assoc]

end Bounds

end Parley.Text
