/-
Instants are in the order of their texts.

As long as the year is written with four digits, all parts of the text but the last have a
width of their own, and a part of fixed width is in the order of its number:

* `Instant.padded_lt_iff`, `Instant.padded_append_lt_iff` — numbers of one width;
* `Date.before_iff` — dates, of which the parts come in the order of their weight;
* `Instant.fractionText_lt_iff` — the fraction, which has no fixed width: what follows it comes
  before every digit, and before the point;
* `Instant.offsetText_lt_iff` — so the texts of instants.
-/
import Parley.Proofs.Instant.Rfc3339

namespace Parley

namespace Instant

/-! ### Numbers of fixed width -/

/-- Two texts are compared by the parts that are equally long first. -/
theorem append_lt_append_iff {u v r s : List Char} (h : u.length = v.length) :
    u ++ r < v ++ s ↔ u < v ∨ u = v ∧ r < s := by
  induction u generalizing v with
  | nil =>
    obtain rfl := List.eq_nil_of_length_eq_zero h.symm
    simp
  | cons c u ih =>
    obtain ⟨d, v, rfl⟩ := List.exists_cons_of_length_eq_add_one h.symm
    rw [List.cons_append, List.cons_append, List.cons_lt_cons_iff, List.cons_lt_cons_iff,
      ih (Nat.succ.inj h), List.cons.injEq]
    tauto

theorem padded_succ {width : Nat} (hwidth : 0 < width) (n : Nat) :
    padded (width + 1) n = padded width (n / 10) ++ [(n % 10).digitChar] := by
  rw [padded, padded]
  by_cases hn : n < 10
  · rw [Nat.toDigits_of_lt_base hn, Nat.div_eq_of_lt hn, Nat.mod_eq_of_lt hn,
      Nat.toDigits_of_lt_base (by decide)]
    obtain ⟨k, rfl⟩ : ∃ k, width = k + 1 := ⟨width - 1, by omega⟩
    simp [List.replicate_succ']
  · rw [Nat.toDigits_of_base_le (by decide) (Nat.le_of_not_lt hn), List.length_append,
      List.length_singleton, Nat.add_sub_add_right, List.append_assoc]

theorem padded_one {n : Nat} (h : n < 10) : padded 1 n = [n.digitChar] := by
  rw [padded, Nat.toDigits_of_lt_base h]
  rfl

/-- A number is written in two parts. -/
theorem padded_add {width more : Nat} (hwidth : 0 < width) (hmore : 0 < more) (n : Nat) :
    padded (width + more) n = padded width (n / 10 ^ more) ++ padded more (n % 10 ^ more) := by
  induction more, hmore using Nat.le_induction generalizing n with
  | base =>
    rw [Nat.pow_one, padded_one (Nat.mod_lt n (by decide)), padded_succ hwidth]
  | succ more hmore ih =>
    have hfront : n / 10 / 10 ^ more = n / 10 ^ (more + 1) := by
      rw [Nat.div_div_eq_div_mul, Nat.pow_succ']
    have hback : n / 10 % 10 ^ more = n % 10 ^ (more + 1) / 10 := by
      rw [Nat.pow_succ', Nat.mod_mul_right_div_self]
    have hlast : n % 10 = n % 10 ^ (more + 1) % 10 := by
      rw [Nat.pow_succ', Nat.mod_mul_right_mod]
    rw [← Nat.add_assoc, padded_succ (by omega), ih, padded_succ hmore,
      List.append_assoc, hfront, hback, hlast]

theorem padded_inj {width m n : Nat} : padded width m = padded width n ↔ m = n := by
  constructor
  · intro h
    have read := digits?_padded width m
    rw [h, digits?_padded] at read
    exact (Option.some.inj read).symm
  · rintro rfl
    rfl

theorem digitChar_lt_iff {m n : Nat} (hm : m < 10) (hn : n < 10) :
    m.digitChar < n.digitChar ↔ m < n := by
  rw [Char.lt_def, UInt32.lt_iff_toNat_lt]
  show m.digitChar.toNat < n.digitChar.toNat ↔ m < n
  rw [Nat.toNat_digitChar_of_lt_ten hm, Nat.toNat_digitChar_of_lt_ten hn]
  omega

theorem padded_lt_iff {width m n : Nat} (hwidth : 0 < width) (hm : m < 10 ^ width)
    (hn : n < 10 ^ width) : padded width m < padded width n ↔ m < n := by
  -- By induction on the width: all digits but the last decide first.
  induction width, hwidth using Nat.le_induction generalizing m n with
  | base =>
    have hm : m < 10 := hm
    have hn : n < 10 := hn
    rw [padded_one hm, padded_one hn, List.cons_lt_cons_iff, digitChar_lt_iff hm hn]
    simp
  | succ width hwidth ih =>
    rw [Nat.pow_succ] at hm hn
    have hm' : m / 10 < 10 ^ width := by omega
    have hn' : n / 10 < 10 ^ width := by omega
    have lengths : (padded width (m / 10)).length = (padded width (n / 10)).length := by
      rw [length_padded hwidth hm', length_padded hwidth hn']
    rw [padded_succ hwidth, padded_succ hwidth, append_lt_append_iff lengths, ih hm' hn',
      padded_inj, List.cons_lt_cons_iff,
      digitChar_lt_iff (Nat.mod_lt m (by decide)) (Nat.mod_lt n (by decide))]
    simp only [List.not_lt_nil, and_false, or_false]
    omega

theorem padded_append_lt_iff {width m n : Nat} (hwidth : 0 < width) (hm : m < 10 ^ width)
    (hn : n < 10 ^ width) {r s : List Char} :
    padded width m ++ r < padded width n ++ s ↔ m < n ∨ m = n ∧ r < s := by
  have lengths : (padded width m).length = (padded width n).length := by
    rw [length_padded hwidth hm, length_padded hwidth hn]
  rw [append_lt_append_iff lengths, padded_lt_iff hwidth hm hn, padded_inj]

end Instant

/-! ### Dates -/

namespace Date

/-- The parts of a date in the order of their weight. -/
def Before (d d' : Date) : Prop :=
  d.year < d'.year ∨ d.year = d'.year ∧
    (d.month < d'.month ∨ d.month = d'.month ∧ d.day < d'.day)

/-- The first day of a month, where months are counted from March of the year zero. -/
def monthStart (month : Int) : Int :=
  365 * (month / 12) + month / 12 / 4 - month / 12 / 100 + month / 12 / 400 +
    (153 * (month % 12) + 2) / 5 - 719468

/-- The months up to that of a date, counted from March of the year zero. -/
def months (d : Date) : Int := 12 * d.year + d.month - 3

theorem toDays_eq_monthStart {d : Date} (h : 1 ≤ d.month ∧ d.month ≤ 12) :
    d.toDays = monthStart d.months + d.day - 1 := by
  have counted (year month : Int) (hmonth : 0 ≤ month ∧ month < 12)
      (hmonths : d.months = 12 * year + month) :
      year / 400 * 146097 + (year % 400 * 365 + year % 400 / 4 - year % 400 / 100 +
        ((153 * month + 2) / 5 + d.day - 1)) - 719468 = monthStart d.months + d.day - 1 := by
    have hyear : (12 * year + month) / 12 = year := by omega
    have hrest : (12 * year + month) % 12 = month := by omega
    rw [hmonths, monthStart, hyear, hrest]
    omega
  rw [toDays]
  by_cases hearly : d.month ≤ 2
  · simp only [if_pos hearly]
    exact counted _ _ (by omega) (by rw [months]; omega)
  · simp only [if_neg hearly]
    exact counted _ _ (by omega) (by rw [months]; omega)

theorem monthStart_mono {m n : Int} (h : m ≤ n) : monthStart m ≤ monthStart n := by
  have hyears : m / 12 < n / 12 ∨ m / 12 = n / 12 ∧ m % 12 ≤ n % 12 := by omega
  have hm : 0 ≤ m % 12 ∧ m % 12 < 12 := by omega
  have hn : 0 ≤ n % 12 ∧ n % 12 < 12 := by omega
  rw [monthStart, monthStart]
  generalize m / 12 = y at *
  generalize n / 12 = y' at *
  generalize m % 12 = k at *
  generalize n % 12 = k' at *
  omega

/-- February is the last month of a year that begins in March. -/
theorem february_le_monthStart (year : Int) :
    monthStart (12 * year + (2 : Nat) - 3) + daysInMonth year 2 ≤
      monthStart (12 * year + (2 : Nat) - 3 + 1) := by
  have before : (12 * year + (2 : Nat) - 3) / 12 = year - 1 := by omega
  have last : (12 * year + (2 : Nat) - 3) % 12 = 11 := by omega
  have after : (12 * year + (2 : Nat) - 3 + 1) / 12 = year := by omega
  have first : (12 * year + (2 : Nat) - 3 + 1) % 12 = 0 := by omega
  simp only [monthStart]
  rw [before, last, after, first]
  show _ + ((if isLeapYear year then 29 else 28 : Nat) : Int) ≤ _
  cases hleap : isLeapYear year with
  | true =>
    simp only [isLeapYear, Bool.and_eq_true, Bool.or_eq_true, beq_iff_eq, bne_iff_ne] at hleap
    simp only [if_true]
    omega
  | false =>
    simp only [Bool.false_eq_true, if_false]
    omega

/-- A month goes up to the next. -/
theorem daysInMonth_le_monthStart {d : Date} (h : 1 ≤ d.month ∧ d.month ≤ 12) :
    monthStart d.months + daysInMonth d.year d.month ≤ monthStart (d.months + 1) := by
  obtain ⟨year, month, day⟩ := d
  obtain ⟨hlow, hhigh⟩ := h
  simp only [months] at *
  by_cases hfeb : month = 2
  · subst hfeb
    exact february_le_monthStart year
  · have year' : (12 * year + (month : Int) - 3 + 1) / 12 =
        (12 * year + (month : Int) - 3) / 12 := by
      omega
    have month' : (12 * year + (month : Int) - 3 + 1) % 12 =
        (12 * year + (month : Int) - 3) % 12 + 1 := by
      omega
    have counted : (12 * year + (month : Int) - 3) % 12 =
        if month < 3 then month + 9 else month - 3 := by
      split <;> omega
    simp only [monthStart]
    rw [year', month']
    generalize (12 * year + (month : Int) - 3) / 12 = y
    rw [counted]
    have range : month = 1 ∨ month = 3 ∨ month = 4 ∨ month = 5 ∨ month = 6 ∨ month = 7 ∨
        month = 8 ∨ month = 9 ∨ month = 10 ∨ month = 11 ∨ month = 12 := by
      omega
    rcases range with rfl | rfl | rfl | rfl | rfl | rfl | rfl | rfl | rfl | rfl | rfl
    all_goals
      simp [daysInMonth]
      omega

theorem toDays_lt {d d' : Date} (hd : d.isValid = true) (hd' : d'.isValid = true)
    (h : d.Before d') : d.toDays < d'.toDays := by
  simp only [isValid, Bool.and_eq_true, decide_eq_true_iff] at hd hd'
  obtain ⟨⟨⟨⟨-, hlow⟩, hhigh⟩, -⟩, hlast⟩ := hd
  obtain ⟨⟨⟨⟨-, hlow'⟩, hhigh'⟩, hfirst'⟩, -⟩ := hd'
  rw [toDays_eq_monthStart ⟨hlow, hhigh⟩, toDays_eq_monthStart ⟨hlow', hhigh'⟩]
  have months_le : d.months + 1 ≤ d'.months ∨ d.months = d'.months ∧ d.day < d'.day := by
    rw [Before] at h
    rw [months, months]
    omega
  rcases months_le with hmonths | ⟨hmonths, hdays⟩
  · have next := daysInMonth_le_monthStart ⟨hlow, hhigh⟩
    have later := monthStart_mono hmonths
    omega
  · rw [hmonths]
    omega

/-- Dates are in the order of their days. -/
theorem before_iff {d d' : Date} (hd : d.isValid = true) (hd' : d'.isValid = true) :
    d.Before d' ↔ d.toDays < d'.toDays := by
  constructor
  · exact toDays_lt hd hd'
  · intro hlt
    by_contra hnot
    by_cases hback : d'.Before d
    · exact absurd hlt (not_lt_of_gt (toDays_lt hd' hd hback))
    · have same : d = d' := by
        obtain ⟨year, month, day⟩ := d
        obtain ⟨year', month', day'⟩ := d'
        simp only [Before] at hnot hback
        simp only [mk.injEq]
        omega
      rw [same] at hlt
      exact lt_irrefl _ hlt

end Date

namespace Instant

/-! ### The fraction -/

/-- The digits of a number of `groups` times three digits, without the groups at the end that
are zero. -/
def fractionDigits : Nat → Nat → List Char
  | 0, _ => []
  | groups + 1, n =>
    if n = 0 then [] else padded 3 (n / 1000 ^ groups) ++ fractionDigits groups (n % 1000 ^ groups)

theorem lt_iff_div_mod {m n : Nat} (k : Nat) :
    m < n ↔ m / k < n / k ∨ m / k = n / k ∧ m % k < n % k := by
  have hm := Nat.div_add_mod m k
  have hn := Nat.div_add_mod n k
  rcases Nat.lt_trichotomy (m / k) (n / k) with hlt | heq | hgt
  · have := Nat.lt_of_div_lt_div hlt
    omega
  · rw [heq] at hm ⊢
    omega
  · have := Nat.lt_of_div_lt_div hgt
    omega

theorem plus_lt_padded (width n : Nat) (r s : List Char) : '+' :: r < padded width n ++ s := by
  obtain ⟨c, cs, heq, hdigit⟩ := exists_padded width n
  rw [heq, List.cons_append, List.cons_lt_cons_iff]
  left
  rw [Char.isDigit_iff_toNat] at hdigit
  rw [Char.lt_def, UInt32.lt_iff_toNat_lt]
  exact lt_of_lt_of_le (by decide) hdigit.1

/-- What follows the digits comes before them, so a fraction that goes on comes later. -/
theorem fractionDigits_lt_iff {groups m n : Nat} (hm : m < 1000 ^ groups) (hn : n < 1000 ^ groups)
    (r : List Char) :
    fractionDigits groups m ++ '+' :: r < fractionDigits groups n ++ '+' :: r ↔ m < n := by
  induction groups generalizing m n with
  | zero =>
    have hm : m < 1 := hm
    have hn : n < 1 := hn
    simp only [fractionDigits, lt_irrefl, false_iff]
    omega
  | succ groups ih =>
    have rest (k : Nat) : k % 1000 ^ groups < 1000 ^ groups := Nat.mod_lt k (by positivity)
    have first {k : Nat} (hk : k < 1000 ^ (groups + 1)) : k / 1000 ^ groups < 10 ^ 3 :=
      Nat.div_lt_of_lt_mul (by rwa [Nat.pow_succ] at hk)
    rw [fractionDigits, fractionDigits]
    by_cases hmzero : m = 0
    · by_cases hnzero : n = 0
      · simp [hmzero, hnzero]
      · rw [if_pos hmzero, if_neg hnzero, List.append_assoc]
        exact iff_of_true (plus_lt_padded ..) (by omega)
    · by_cases hnzero : n = 0
      · rw [if_neg hmzero, if_pos hnzero, List.append_assoc]
        exact iff_of_false (not_lt_of_gt (plus_lt_padded ..)) (by omega)
      · rw [if_neg hmzero, if_neg hnzero, List.append_assoc, List.append_assoc,
          padded_append_lt_iff (by decide) (first hm) (first hn), ih (rest m) (rest n),
          ← lt_iff_div_mod]

theorem fractionText_eq {nanos : Nat} (h : nanos ≠ 0) :
    fractionText nanos = '.' :: fractionDigits 3 nanos := by
  have six : padded 6 (nanos / 1000) =
      padded 3 (nanos / 1000000) ++ padded 3 (nanos % 1000000 / 1000) := by
    have parts := padded_add (show 0 < 3 by decide) (show 0 < 3 by decide) (nanos / 1000)
    have front : nanos / 1000 / 1000 = nanos / 1000000 := Nat.div_div_eq_div_mul ..
    have back : nanos / 1000 % 1000 = nanos % 1000000 / 1000 := by omega
    rw [← front, ← back]
    exact parts
  have nine : padded 9 nanos = padded 6 (nanos / 1000) ++ padded 3 (nanos % 1000000 % 1000) := by
    have parts := padded_add (show 0 < 6 by decide) (show 0 < 3 by decide) nanos
    have back : nanos % 1000 = nanos % 1000000 % 1000 := by omega
    rw [← back]
    exact parts
  have digits : fractionDigits 3 nanos = padded 3 (nanos / 1000000) ++
      if nanos % 1000000 = 0 then [] else padded 3 (nanos % 1000000 / 1000) ++
        if nanos % 1000000 % 1000 = 0 then [] else padded 3 (nanos % 1000000 % 1000) := by
    simp only [fractionDigits, if_neg h, Nat.reducePow, Nat.div_one, List.append_nil]
  rw [fractionText, if_neg h, digits]
  by_cases hmillis : nanos % 1000000 = 0
  · rw [if_pos hmillis, if_pos hmillis, List.append_nil]
  · rw [if_neg hmillis, if_neg hmillis]
    by_cases hmicros : nanos % 1000 = 0
    · rw [if_pos hmicros, if_pos (by omega), six, List.append_nil]
    · rw [if_neg hmicros, if_neg (by omega), nine, six, List.append_assoc]

/-- Fractions before an offset are in the order of their values, whatever their widths. -/
theorem fractionText_lt_iff {m n : Nat} (hm : m < nanosPerSecond) (hn : n < nanosPerSecond)
    (r : List Char) :
    fractionText m ++ '+' :: r < fractionText n ++ '+' :: r ↔ m < n := by
  by_cases hmzero : m = 0
  · by_cases hnzero : n = 0
    · simp [hmzero, hnzero]
    · rw [fractionText_eq hnzero, hmzero]
      exact iff_of_true (List.Lex.rel (by decide)) (by omega)
  · by_cases hnzero : n = 0
    · rw [fractionText_eq hmzero, hnzero]
      exact iff_of_false (not_lt_of_gt (List.Lex.rel (by decide))) (by omega)
    · rw [fractionText_eq hmzero, fractionText_eq hnzero, List.cons_append, List.cons_append,
        List.cons_lt_cons_iff, fractionDigits_lt_iff hm hn]
      simp

/-! ### Instants -/

/-- The year is written with four digits. -/
def InFourDigitYear (a : Instant) : Prop := 0 ≤ a.date.year ∧ a.date.year ≤ 9999

instance (a : Instant) : Decidable a.InFourDigitYear := inferInstanceAs (Decidable (_ ∧ _))

theorem le_iff {a b : Instant} :
    a.le b = true ↔ a.seconds < b.seconds ∨ a.seconds = b.seconds ∧ a.nanos ≤ b.nanos := by
  simp [le]

theorem date_eq_iff {a b : Instant} :
    a.date = b.date ↔ a.seconds / 86400 = b.seconds / 86400 := by
  refine ⟨fun heq => ?_, fun heq => congrArg Date.ofDays heq⟩
  have same := congrArg Date.toDays heq
  rwa [date, date, Date.toDays_ofDays, Date.toDays_ofDays] at same

/-- The date decides first, by its parts in the order in which they are written. -/
theorem IsValid.date_lt_iff {a b : Instant} (ha : a.IsValid) (hb : b.IsValid)
    (hyear : a.InFourDigitYear) (hyear' : b.InFourDigitYear) (rest : Prop) :
    (a.date.year.toNat < b.date.year.toNat ∨ a.date.year.toNat = b.date.year.toNat ∧
      (a.date.month < b.date.month ∨ a.date.month = b.date.month ∧
        (a.date.day < b.date.day ∨ a.date.day = b.date.day ∧ rest))) ↔
      a.seconds / 86400 < b.seconds / 86400 ∨ a.seconds / 86400 = b.seconds / 86400 ∧ rest := by
  have days (c : Instant) : c.date.toDays = c.seconds / 86400 := Date.toDays_ofDays _
  rw [← date_eq_iff, ← days, ← days, ← Date.before_iff ha.date hb.date, Date.Before]
  obtain ⟨hlow, -⟩ := hyear
  obtain ⟨hlow', -⟩ := hyear'
  generalize a.date = d at *
  generalize b.date = d' at *
  obtain ⟨year, month, day⟩ := d
  obtain ⟨year', month', day'⟩ := d'
  simp only [Date.mk.injEq] at *
  by_cases hrest : rest
  · simp only [hrest, and_true]
    omega
  · simp only [hrest, and_false, or_false]
    omega

/-- The second of the minute as it is written: a leap second is the sixtieth. -/
def writtenSecond (a : Instant) : Nat := a.timeOfDay.toNat % 60 + if a.isLeap then 1 else 0

theorem IsValid.writtenSecond_cases {a : Instant} (h : a.IsValid) :
    a.writtenSecond = a.timeOfDay.toNat % 60 ∧ a.nanos = a.nanos % 1000000000 ∨
      a.writtenSecond = 60 ∧ a.timeOfDay.toNat % 60 = 59 ∧
        a.nanos = a.nanos % 1000000000 + 1000000000 := by
  have hnanos : a.nanos < 2 * 1000000000 := h.nanos
  rw [writtenSecond]
  cases hleap : a.isLeap with
  | false =>
    have hshort : ¬ 1000000000 ≤ a.nanos := of_decide_eq_false hleap
    exact .inl ⟨rfl, (Nat.mod_eq_of_lt (by omega)).symm⟩
  | true =>
    have hlong : 1000000000 ≤ a.nanos := of_decide_eq_true hleap
    have hlast : a.timeOfDay.toNat % 60 = 59 := by
      have hsixty := h.leap hleap
      show (a.seconds % 86400).toNat % 60 = 59
      omega
    exact .inr ⟨by rw [hlast, if_pos rfl], hlast, by omega⟩

/-- Within a day hour, minute, second and fraction decide. -/
theorem IsValid.clock_lt_iff {a b : Instant} (ha : a.IsValid) (hb : b.IsValid) :
    (a.timeOfDay.toNat / 3600 < b.timeOfDay.toNat / 3600 ∨
      a.timeOfDay.toNat / 3600 = b.timeOfDay.toNat / 3600 ∧
      (a.timeOfDay.toNat / 60 % 60 < b.timeOfDay.toNat / 60 % 60 ∨
        a.timeOfDay.toNat / 60 % 60 = b.timeOfDay.toNat / 60 % 60 ∧
        (a.writtenSecond < b.writtenSecond ∨ a.writtenSecond = b.writtenSecond ∧
          a.nanos % 1000000000 < b.nanos % 1000000000))) ↔
      a.timeOfDay.toNat < b.timeOfDay.toNat ∨
        a.timeOfDay.toNat = b.timeOfDay.toNat ∧ a.nanos < b.nanos := by
  have hsecond := ha.writtenSecond_cases
  have hsecond' := hb.writtenSecond_cases
  have hnanos : a.nanos % 1000000000 < 1000000000 := Nat.mod_lt _ (by decide)
  have hnanos' : b.nanos % 1000000000 < 1000000000 := Nat.mod_lt _ (by decide)
  generalize a.timeOfDay.toNat = t at *
  generalize b.timeOfDay.toNat = t' at *
  generalize a.nanos % 1000000000 = n at *
  generalize b.nanos % 1000000000 = n' at *
  omega

/-- The text of an instant by its parts. -/
theorem toList_offsetText {a : Instant} (hyear : a.InFourDigitYear) :
    a.offsetText.toList = padded 4 a.date.year.toNat ++ '-' :: (padded 2 a.date.month ++
      '-' :: (padded 2 a.date.day ++ 'T' :: (padded 2 (a.timeOfDay.toNat / 3600) ++
        ':' :: (padded 2 (a.timeOfDay.toNat / 60 % 60) ++
          ':' :: (padded 2 a.writtenSecond ++
            (fractionText (a.nanos % nanosPerSecond) ++ '+' :: ['0', '0', ':', '0', '0'])))))) := by
  rw [InFourDigitYear] at hyear
  rw [offsetText, String.toList_ofList, civilText, yearText, if_pos hyear]
  simp only [List.append_assoc, List.cons_append]
  rfl

/-- The texts by which saved conversations are ordered are in the order of time. -/
theorem offsetText_lt_iff {a b : Instant} (ha : a.IsValid) (hb : b.IsValid)
    (hyear : a.InFourDigitYear) (hyear' : b.InFourDigitYear) :
    a.offsetText < b.offsetText ↔ b.le a = false := by
  have second (c : Instant) : c.writtenSecond < 10 ^ 2 := by
    rw [writtenSecond]
    split <;> omega
  have fits {c : Instant} (hc : c.IsValid) (hcyear : c.InFourDigitYear) :
      c.date.year.toNat < 10 ^ 4 ∧ c.date.month < 10 ^ 2 ∧ c.date.day < 10 ^ 2 := by
    have hdate := hc.date
    have hdays := daysInMonth_le c.date.year c.date.month
    simp only [Date.isValid, Bool.and_eq_true, decide_eq_true_iff] at hdate
    obtain ⟨hlow, hhigh⟩ := hcyear
    omega
  have time (c : Instant) : (c.timeOfDay.toNat : Int) = c.seconds % 86400 :=
    Int.toNat_of_nonneg (by show 0 ≤ c.seconds % 86400; omega)
  obtain ⟨y, m, d⟩ := fits ha hyear
  obtain ⟨y', m', d'⟩ := fits hb hyear'
  have ta := time a
  have tb := time b
  rw [String.lt_iff_toList_lt, toList_offsetText hyear, toList_offsetText hyear',
    padded_append_lt_iff (by decide) y y', List.cons_lt_cons_iff,
    padded_append_lt_iff (by decide) m m', List.cons_lt_cons_iff,
    padded_append_lt_iff (by decide) d d', List.cons_lt_cons_iff,
    padded_append_lt_iff (by decide) (by omega) (by omega), List.cons_lt_cons_iff,
    padded_append_lt_iff (by decide) (by omega) (by omega), List.cons_lt_cons_iff,
    padded_append_lt_iff (by decide) (second a) (second b),
    fractionText_lt_iff (Nat.mod_lt _ (by decide)) (Nat.mod_lt _ (by decide))]
  simp only [Char.lt_irrefl, false_or, true_and]
  rw [nanosPerSecond, ha.date_lt_iff hb hyear hyear', ha.clock_lt_iff hb, ← Bool.not_eq_true,
    le_iff]
  omega

theorem offsetText_le_iff {a b : Instant} (ha : a.IsValid) (hb : b.IsValid)
    (hyear : a.InFourDigitYear) (hyear' : b.InFourDigitYear) :
    a.offsetText ≤ b.offsetText ↔ a.le b = true := by
  rw [← String.not_lt, offsetText_lt_iff hb ha hyear' hyear, Bool.not_eq_false]

end Instant
end Parley
