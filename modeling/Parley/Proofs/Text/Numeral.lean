/-
What numerals stand for.

* `Text.signed?_eq_some_iff`, `Text.integer?_eq_some_iff` — a text reads as a number exactly if it
  is an optional sign and decimal digits for it, and the number is in the range asked for;
* `Text.digitsFrom_eq` — a run of digits is read as the core library reads it;
* `Text.digits?_toDigits`, `Text.integer?_toString` — so what is written in decimal is
  the number that is read;
* `Text.trim_numeral`, `Text.lowercase_numeral` — as part of a line of input, too, since
  neither trimming nor lowering touches a numeral.
-/
import Mathlib.Data.List.Basic
import Parley.Proofs.Text.Lowercase
import Parley.Text.Numeral

namespace Parley.Text

theorem isDigit_iff {c : Char} : c.isDigit = true ↔ 48 ≤ c.toNat ∧ c.toNat ≤ 57 := by
  rw [Char.isDigit, Bool.and_eq_true, decide_eq_true_iff, decide_eq_true_iff]
  rw [ge_iff_le, UInt32.le_iff_toNat_le, UInt32.le_iff_toNat_le]
  rfl

theorem digitsFrom_eq {cs : List Char} (h : ∀ c ∈ cs, c.isDigit = true) (acc : Nat) :
    digitsFrom acc cs = some (Nat.ofDigitChars 10 cs acc) := by
  induction cs generalizing acc with
  | nil => rfl
  | cons c rest ih =>
    obtain ⟨hlow, hhigh⟩ := isDigit_iff.mp (h c List.mem_cons_self)
    have hdigit : '0' ≤ c ∧ c ≤ '9' := ⟨hlow, hhigh⟩
    rw [digitsFrom, if_pos hdigit, ih fun c' hc' => h c' (List.mem_cons_of_mem c hc'),
      Nat.ofDigitChars_cons, Nat.mul_comm]

/-- The decimal digits of a number are read as that number. -/
theorem digits?_toDigits (n : Nat) : digits? (Nat.toDigits 10 n) = some n := by
  have read : digitsFrom 0 (Nat.toDigits 10 n) = some n := by
    rw [digitsFrom_eq fun c => Nat.isDigit_of_mem_toDigits (by decide) (by decide),
      Nat.ofDigitChars_ten_toDigits]
  cases hdigits : Nat.toDigits 10 n with
  | nil => exact absurd hdigits Nat.toDigits_ne_nil
  | cons c rest =>
    rw [hdigits] at read
    exact read

/-- Digits without a sign. -/
theorem signed?_of_isDigit {cs : List Char} (h : ∀ c ∈ cs.head?, c.isDigit = true) :
    signed? cs = (digits? cs).map Int.ofNat := by
  rw [signed?.eq_def]
  split
  · exact absurd (h '-' rfl) (by decide)
  · exact absurd (h '+' rfl) (by decide)
  · rfl

/-- The characters of a whole number in decimal. -/
theorem toList_toString (k : Int) :
    (toString k).toList = if 0 ≤ k then Nat.toDigits 10 k.toNat
      else '-' :: Nat.toDigits 10 (-k).toNat := by
  rw [Int.toString_eq_repr, Int.repr_eq_if]
  split
  · exact Nat.toList_repr
  · rw [String.toList_append, Nat.toList_repr]
    rfl

theorem signed?_toString (k : Int) : signed? (toString k).toList = some k := by
  rw [toList_toString]
  split
  · rename_i hsign
    have hhead : ∀ c ∈ (Nat.toDigits 10 k.toNat).head?, c.isDigit = true := fun c hc =>
      Nat.isDigit_of_mem_toDigits (by decide) (by decide) (List.mem_of_mem_head? hc)
    rw [signed?_of_isDigit hhead, digits?_toDigits, Option.map_some]
    exact congrArg some (Int.toNat_of_nonneg hsign)
  · rename_i hsign
    rw [signed?, digits?_toDigits]
    show some (-((-k).toNat : Int)) = some k
    congr 1
    omega

theorem integer?_toString {k : Int} (hlow : int64Min ≤ k) (hhigh : k ≤ int64Max) :
    integer? (toString k) = some k := by
  rw [integer?, signed?_toString]
  simp [hlow, hhigh]

/-! ### Numerals of any size -/

/-- The characters are an optional sign and at least one decimal digit, and stand for the number. -/
inductive Denotes : List Char → Int → Prop where
  | unsigned {ds : List Char} (hne : ds ≠ []) (hds : ∀ c ∈ ds, c.isDigit = true) :
      Denotes ds (Nat.ofDigitChars 10 ds 0)
  | plus {ds : List Char} (hne : ds ≠ []) (hds : ∀ c ∈ ds, c.isDigit = true) :
      Denotes ('+' :: ds) (Nat.ofDigitChars 10 ds 0)
  | minus {ds : List Char} (hne : ds ≠ []) (hds : ∀ c ∈ ds, c.isDigit = true) :
      Denotes ('-' :: ds) (-(Nat.ofDigitChars 10 ds 0 : Int))

theorem isDigit_of_digitsFrom {cs : List Char} {acc n : Nat} (h : digitsFrom acc cs = some n) :
    ∀ c ∈ cs, c.isDigit = true := by
  induction cs generalizing acc with
  | nil => exact fun c hc => absurd hc List.not_mem_nil
  | cons c rest ih =>
    rw [digitsFrom] at h
    split at h
    · rename_i hdigit
      exact List.forall_mem_cons.mpr ⟨isDigit_iff.mpr hdigit, ih h⟩
    · exact absurd h (by simp)

theorem digits?_eq_some_iff {cs : List Char} {n : Nat} :
    digits? cs = some n ↔
      cs ≠ [] ∧ (∀ c ∈ cs, c.isDigit = true) ∧ Nat.ofDigitChars 10 cs 0 = n := by
  cases cs with
  | nil => simp [digits?]
  | cons c rest =>
    rw [show digits? (c :: rest) = digitsFrom 0 (c :: rest) from rfl]
    constructor
    · intro h
      have hdigits := isDigit_of_digitsFrom h
      rw [digitsFrom_eq hdigits] at h
      exact ⟨List.cons_ne_nil c rest, hdigits, Option.some.inj h⟩
    · rintro ⟨-, hdigits, rfl⟩
      exact digitsFrom_eq hdigits 0

theorem signed?_eq_some_iff {cs : List Char} {n : Int} : signed? cs = some n ↔ Denotes cs n := by
  have read {ds : List Char} {f : Nat → Int} (h : (digits? ds).map f = some n) :
      ds ≠ [] ∧ (∀ c ∈ ds, c.isDigit = true) ∧ f (Nat.ofDigitChars 10 ds 0) = n := by
    obtain ⟨k, hk, heq⟩ := Option.map_eq_some_iff.mp h
    obtain ⟨hne, hdigits, rfl⟩ := digits?_eq_some_iff.mp hk
    exact ⟨hne, hdigits, heq⟩
  constructor
  · intro h
    rw [signed?.eq_def] at h
    split at h
    · rename_i ds
      have negated : (digits? ds).map (fun k : Nat => -(k : Int)) = some n := by
        rw [← h]
        cases digits? ds <;> rfl
      obtain ⟨hne, hdigits, rfl⟩ := read negated
      exact .minus hne hdigits
    · obtain ⟨hne, hdigits, rfl⟩ := read h
      exact .plus hne hdigits
    · obtain ⟨hne, hdigits, rfl⟩ := read h
      exact .unsigned hne hdigits
  · intro h
    cases h with
    | unsigned hne hds =>
      rw [signed?_of_isDigit fun c hc => hds c (List.mem_of_mem_head? hc),
        digits?_eq_some_iff.mpr ⟨hne, hds, rfl⟩]
      rfl
    | plus hne hds | minus hne hds =>
      rw [signed?, digits?_eq_some_iff.mpr ⟨hne, hds, rfl⟩]
      rfl

/-- A numeral without a minus sign. -/
theorem unsigned?_eq_some_iff {cs : List Char} {n : Nat} :
    unsigned? cs = some n ↔ cs.head? ≠ some '-' ∧ Denotes cs n := by
  constructor
  · intro h
    rw [unsigned?.eq_def] at h
    split at h
    · obtain ⟨hne, hds, rfl⟩ := digits?_eq_some_iff.mp h
      exact ⟨by simp, .plus hne hds⟩
    · obtain ⟨hne, hds, rfl⟩ := digits?_eq_some_iff.mp h
      refine ⟨fun hsign => ?_, .unsigned hne hds⟩
      exact absurd (hds '-' (List.mem_of_mem_head? hsign)) (by decide)
  · rintro ⟨hsign, h⟩
    generalize hn : (n : Int) = m at h
    cases h with
    | unsigned hne hds =>
      have unmarked : unsigned? cs = digits? cs := by
        rw [unsigned?.eq_def]
        split
        · exact absurd (hds '+' List.mem_cons_self) (by decide)
        · rfl
      rw [unmarked]
      exact digits?_eq_some_iff.mpr ⟨hne, hds, (Int.ofNat.inj hn).symm⟩
    | plus hne hds => exact digits?_eq_some_iff.mpr ⟨hne, hds, (Int.ofNat.inj hn).symm⟩
    | minus => exact absurd rfl hsign

theorem integer?_eq_some_iff {s : String} {n : Int} :
    integer? s = some n ↔ Denotes s.toList n ∧ int64Min ≤ n ∧ n ≤ int64Max := by
  rw [integer?, Option.filter_eq_some_iff, signed?_eq_some_iff, Bool.and_eq_true,
    decide_eq_true_iff, decide_eq_true_iff]

namespace Denotes

variable {cs : List Char} {n : Int}

theorem unique {n' : Int} (h : Denotes cs n) (h' : Denotes cs n') : n = n' :=
  Option.some.inj ((signed?_eq_some_iff.mpr h).symm.trans (signed?_eq_some_iff.mpr h'))

theorem ne_nil (h : Denotes cs n) : cs ≠ [] := by
  cases h with
  | unsigned hne => exact hne
  | plus | minus => exact List.cons_ne_nil _ _

/-- Signs and digits stand below the letters and above the blanks. -/
theorem toNat_mem (h : Denotes cs n) : ∀ c ∈ cs, 43 ≤ c.toNat ∧ c.toNat ≤ 57 := by
  have digit {ds : List Char} (hds : ∀ c ∈ ds, c.isDigit = true) :
      ∀ c ∈ ds, 43 ≤ c.toNat ∧ c.toNat ≤ 57 := by
    intro c hc
    have := isDigit_iff.mp (hds c hc)
    omega
  cases h with
  | unsigned hne hds => exact digit hds
  | plus hne hds | minus hne hds => exact List.forall_mem_cons.mpr ⟨by decide, digit hds⟩

theorem isBlank_eq_false (h : Denotes cs n) : ∀ c ∈ cs, isBlank c = false := by
  intro c hc
  have hcode := h.toNat_mem c hc
  rw [Bool.eq_false_iff, ne_eq, isBlank_iff]
  simp only [blankCodes, List.mem_cons, List.not_mem_nil, or_false]
  omega

theorem lowerChars_eq (h : Denotes cs n) (before : List Char) :
    Lowercase.lowerChars before cs = cs := by
  refine Lowercase.lowerChars_of_lt (fun c hc => ?_) before
  have hcode := h.toNat_mem c hc
  omega

/-- Two characters are not enough for a number of three digits. -/
theorem two_lt_length (h : Denotes cs n) (hlarge : 100 ≤ n.natAbs) : 2 < cs.length := by
  have short {ds : List Char} (hds : ∀ c ∈ ds, c.isDigit = true) (hlength : ds.length ≤ 2) :
      Nat.ofDigitChars 10 ds 0 < 100 := by
    match ds with
    | [] => decide
    | [c] =>
      have hc := isDigit_iff.mp (hds c (by simp))
      simp only [Nat.ofDigitChars_cons, Nat.ofDigitChars_nil]
      show 10 * 0 + (c.toNat - 48) < 100
      omega
    | [c, d] =>
      have hc := isDigit_iff.mp (hds c (by simp))
      have hd := isDigit_iff.mp (hds d (by simp))
      simp only [Nat.ofDigitChars_cons, Nat.ofDigitChars_nil]
      show 10 * (10 * 0 + (c.toNat - 48)) + (d.toNat - 48) < 100
      omega
    | _ :: _ :: _ :: _ => simp at hlength
  by_contra hlength
  cases h with
  | unsigned hne hds =>
    have := short hds (by omega)
    omega
  | plus hne hds | minus hne hds =>
    rw [List.length_cons] at hlength
    have := short hds (by omega)
    omega

end Denotes

/-! ### Numerals in a line of input -/

/-- A digit or a minus sign. -/
def isNumeric (c : Char) : Bool := c.isDigit || c == '-'

theorem isNumeric_toString {k : Int} {c : Char} (hc : c ∈ (toString k).toList) :
    isNumeric c = true := by
  have digit {n : Nat} (hc : c ∈ Nat.toDigits 10 n) : isNumeric c = true := by
    rw [isNumeric, Nat.isDigit_of_mem_toDigits (by decide) (by decide) hc, Bool.true_or]
  rw [toList_toString] at hc
  split at hc
  · exact digit hc
  · rcases List.mem_cons.mp hc with rfl | hc
    · rfl
    · exact digit hc

theorem toNat_of_isNumeric {c : Char} (h : isNumeric c = true) :
    c.toNat = 45 ∨ 48 ≤ c.toNat ∧ c.toNat ≤ 57 := by
  rw [isNumeric, Bool.or_eq_true, beq_iff_eq] at h
  rcases h with h | rfl
  · exact .inr (isDigit_iff.mp h)
  · exact .inl rfl

theorem isBlank_of_isNumeric {c : Char} (h : isNumeric c = true) : isBlank c = false := by
  have := toNat_of_isNumeric h
  simp only [isBlank, Bool.or_eq_false_iff, Bool.and_eq_false_iff, decide_eq_false_iff_not,
    beq_eq_false_iff_ne]
  omega

theorem lowerChars_numeric {cs : List Char} (h : ∀ c ∈ cs, isNumeric c = true)
    (before : List Char) : Lowercase.lowerChars before cs = cs := by
  refine Lowercase.lowerChars_of_lt (fun c hc => ?_) before
  have hcode := toNat_of_isNumeric (h c hc)
  omega

theorem trim_numeral (k : Int) : trim (toString k) = toString k := by
  have ends : trimChars (toString k).toList = (toString k).toList :=
    trimChars_of_ends
      (fun c hc => isBlank_of_isNumeric (isNumeric_toString (List.mem_of_mem_head? hc)))
      fun c hc => isBlank_of_isNumeric (isNumeric_toString (List.mem_of_mem_getLast? hc))
  rw [trim, ends, String.ofList_toList]

theorem lowercase_numeral (k : Int) : lowercase (toString k) = toString k := by
  rw [lowercase, lowerChars_numeric fun c hc => isNumeric_toString hc, String.ofList_toList]

end Parley.Text
