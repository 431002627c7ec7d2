/-
Days and dates are two names for the same thing.

The calendar repeats after an era of 400 years, which has 146097 days.  Years are counted from
March, so that a leap day is the last day of its year, of its four years, and of its century
or not at all.

* `Date.Splits` — a day of an era as a century, a block of four years, a year and the rest;
* `Date.Splits.yearOfEra` — which is what the division by days of a year comes to;
* `Date.toDays_ofDays` — so the date of a day names that day;
* `Date.isValid_ofDays` — and is one that the calendar has, as far as it reaches.
-/
import Parley.Instant

namespace Parley.Date

/-- A day of an era by its century, its block of four years, its year and what is left. -/
structure Splits (day c b y r : Int) : Prop where
  sum : day = 36524 * c + 1461 * b + 365 * y + r
  century : 0 ≤ c ∧ c ≤ 3
  block : 0 ≤ b ∧ b ≤ 24
  year : 0 ≤ y ∧ y ≤ 3
  rest : 0 ≤ r ∧ r ≤ 365
  leapDay : r = 365 → y = 3 ∧ (b = 24 → c = 3)

theorem exists_splits (day : Int) (hlow : 0 ≤ day) (hhigh : day < 146097) :
    ∃ c b y r, Splits day c b y r := by
  obtain ⟨c, d, hc, hd, rfl, hcd⟩ : ∃ c d : Int, (0 ≤ c ∧ c ≤ 3) ∧ (0 ≤ d ∧ d ≤ 36524) ∧
      day = 36524 * c + d ∧ (d = 36524 → c = 3) := by
    refine ⟨min (day / 36524) 3, day - 36524 * min (day / 36524) 3, ?_, ?_, ?_, ?_⟩ <;> omega
  obtain ⟨b, e, hb, he, rfl⟩ : ∃ b e : Int, (0 ≤ b ∧ b ≤ 24) ∧ (0 ≤ e ∧ e ≤ 1460) ∧
      d = 1461 * b + e := ⟨d / 1461, d % 1461, by omega, by omega, by omega⟩
  obtain ⟨y, r, hy, hr, rfl, hlast⟩ : ∃ y r : Int, (0 ≤ y ∧ y ≤ 3) ∧ (0 ≤ r ∧ r ≤ 365) ∧
      e = 365 * y + r ∧ (r = 365 → y = 3) := by
    refine ⟨min (e / 365) 3, e - 365 * min (e / 365) 3, ?_, ?_, ?_, ?_⟩ <;> omega
  exact ⟨c, b, y, r, by omega, hc, hb, hy, hr, by omega⟩

variable {day c b y r : Int}

theorem Splits.yearOfEra (h : Splits day c b y r) :
    (day - day / 1460 + day / 36524 - day / 146096) / 365 = 100 * c + 4 * b + y := by
  obtain ⟨hday, hc, hb, hy, hr, hleap⟩ := h
  have century : day / 36524 - day / 146096 = c := by
    obtain ⟨d, hd⟩ : ∃ d, d = 1461 * b + 365 * y + r := ⟨_, rfl⟩
    have inside : 0 ≤ d ∧ (d ≤ 36523 ∨ d = 36524 ∧ c = 3) := by omega
    have sum : day = 36524 * c + d := by omega
    clear hd hday
    omega
  have blocks : day / 1460 = 25 * c + b + (24 * c + b + 365 * y + r) / 1460 := by omega
  have early : 0 ≤ (24 * c + b + 365 * y + r) / 1460 := by omega
  have late : (24 * c + b + 365 * y + r) / 1460 ≤ 1 := by omega
  have last : r = 365 → (24 * c + b + 365 * y + r) / 1460 = 1 := by omega
  have first : (24 * c + b + 365 * y + r) / 1460 = 1 → 0 < r := by omega
  have year : day - day / 1460 + day / 36524 - day / 146096 =
      365 * (100 * c + 4 * b + y) + (r - (24 * c + b + 365 * y + r) / 1460) := by omega
  rw [year]
  generalize (24 * c + b + 365 * y + r) / 1460 = e at early late last first
  generalize 100 * c + 4 * b + y = n
  omega

/-- The days of an era that come before its year. -/
def daysBefore (year : Int) : Int := 365 * year + year / 4 - year / 100

theorem Splits.before (h : Splits day c b y r) :
    daysBefore (100 * c + 4 * b + y) = 36524 * c + 1461 * b + 365 * y := by
  obtain ⟨-, hc, hb, hy, -, -⟩ := h
  have fours : (100 * c + 4 * b + y) / 4 = 25 * c + b := by omega
  have hundreds : (100 * c + 4 * b + y) / 100 = c := by omega
  rw [daysBefore, fours, hundreds]
  omega

/-- A date by its era, its year of the era and its month, both counted from March. -/
def ofMarch (era year month day : Int) : Date :=
  let civilMonth := if month < 10 then month + 3 else month - 9
  ⟨year + era * 400 + (if civilMonth ≤ 2 then 1 else 0), civilMonth.toNat, day.toNat⟩

theorem Splits.ofDays_eq {days : Int} (h : Splits ((days + 719468) % 146097) c b y r) :
    ofDays days = ofMarch ((days + 719468) / 146097) (100 * c + 4 * b + y) ((5 * r + 2) / 153)
      (r - (153 * ((5 * r + 2) / 153) + 2) / 5 + 1) := by
  have rest : (days + 719468) % 146097 - daysBefore (100 * c + 4 * b + y) = r := by
    rw [h.before, h.sum]
    omega
  rw [daysBefore] at rest
  rw [ofDays]
  simp only [h.yearOfEra, rest]
  rfl

theorem toDays_ofMarch {era year month day : Int} (hyear : 0 ≤ year ∧ year < 400)
    (hmonth : 0 ≤ month ∧ month < 12) (hday : 1 ≤ day) :
    (ofMarch era year month day).toDays =
      era * 146097 + (daysBefore year + ((153 * month + 2) / 5 + day - 1)) - 719468 := by
  have sameEra : (year + era * 400) / 400 = era := by omega
  have sameYear : (year + era * 400) % 400 = year := by omega
  have sameDay : (day.toNat : Int) = day := Int.toNat_of_nonneg (by omega)
  have counted : ∀ n, n = year + era * 400 → ∀ k, k = month →
      n / 400 * 146097 + (n % 400 * 365 + n % 400 / 4 - n % 400 / 100 +
        ((153 * k + 2) / 5 + day.toNat - 1)) - 719468 =
      era * 146097 + (daysBefore year + ((153 * month + 2) / 5 + day - 1)) - 719468 := by
    rintro n rfl k rfl
    rw [sameEra, sameYear, sameDay, daysBefore]
    omega
  by_cases hlate : month < 10
  · have after : ¬ (month + 3).toNat ≤ 2 := by omega
    rw [ofMarch, if_pos hlate, if_neg (show ¬ month + 3 ≤ 2 by omega), toDays]
    simp only [if_neg after]
    exact counted _ (by omega) _ (by omega)
  · have before : (month - 9).toNat ≤ 2 := by omega
    rw [ofMarch, if_neg hlate, if_pos (show month - 9 ≤ 2 by omega), toDays]
    simp only [if_pos before]
    exact counted _ (by omega) _ (by omega)

theorem toDays_ofDays (days : Int) : (ofDays days).toDays = days := by
  obtain ⟨c, b, y, r, h⟩ := exists_splits ((days + 719468) % 146097) (by omega) (by omega)
  obtain ⟨hsum, hc, hb, hy, hr, -⟩ := id h
  rw [h.ofDays_eq, toDays_ofMarch (by omega) (by omega) (by omega), h.before]
  omega

/-- The year that ends with a leap day is a leap year. -/
theorem Splits.isLeapYear (h : Splits day c b y r) (hr : r = 365) (era : Int) :
    isLeapYear (100 * c + 4 * b + y + era * 400 + 1) = true := by
  obtain ⟨rfl, hlast⟩ := h.leapDay hr
  have hc := h.century
  have hb := h.block
  simp only [Date.isLeapYear, Bool.and_eq_true, Bool.or_eq_true, beq_iff_eq, bne_iff_ne]
  omega

/-- In the month of a day of the year, counted from March, there is such a day. -/
theorem le_daysInMonth (year : Int) (hr : 0 ≤ r ∧ r ≤ 365)
    (hleap : r = 365 → Date.isLeapYear year = true) :
    let month := (5 * r + 2) / 153
    (r - (153 * month + 2) / 5 + 1).toNat ≤
      daysInMonth year (if month < 10 then month + 3 else month - 9).toNat := by
  intro month
  obtain ⟨k, hk⟩ : ∃ k, month = k := ⟨_, rfl⟩
  have range : k = 0 ∨ k = 1 ∨ k = 2 ∨ k = 3 ∨ k = 4 ∨ k = 5 ∨ k = 6 ∨ k = 7 ∨ k = 8 ∨ k = 9 ∨
      k = 10 ∨ k = 11 := by omega
  have low : 153 * k ≤ 5 * r + 2 := by omega
  have high : 5 * r + 2 < 153 * k + 153 := by omega
  rw [hk]
  clear hk
  clear_value month
  rcases range with rfl | rfl | rfl | rfl | rfl | rfl | rfl | rfl | rfl | rfl | rfl | rfl
  case inr.inr.inr.inr.inr.inr.inr.inr.inr.inr.inr =>
    show (r - 337 + 1).toNat ≤ if Date.isLeapYear year then 29 else 28
    by_cases hlast : r = 365
    · rw [if_pos (hleap hlast)]
      omega
    · split <;> omega
  all_goals
    simp [daysInMonth]
    omega

/-- The days that the calendar reaches are in its years.  A year counted from March goes on
into the next one, which matters for the first and the last. -/
theorem Splits.year_mem {days : Int} (h : Splits ((days + 719468) % 146097) c b y r)
    (hlow : -96465292 ≤ days) (hhigh : days ≤ 95026236) :
    let year := 100 * c + 4 * b + y + (days + 719468) / 146097 * 400 +
      (if (5 * r + 2) / 153 < 10 then 0 else 1)
    minYear ≤ year ∧ year ≤ maxYear := by
  intro year
  have hc := h.century
  have hb := h.block
  have hy := h.year
  have hr := h.rest
  have hsum := h.sum
  constructor
  · show -262143 ≤ 100 * c + 4 * b + y + (days + 719468) / 146097 * 400 + _
    by_cases hera : (days + 719468) / 146097 = -656
    · have first : 257 ≤ 100 * c + 4 * b + y ∨ 100 * c + 4 * b + y = 256 ∧ 306 ≤ r := by omega
      rw [hera]
      split <;> omega
    · split <;> omega
  · show 100 * c + 4 * b + y + (days + 719468) / 146097 * 400 + _ ≤ 262142
    by_cases hera : (days + 719468) / 146097 = 655
    · have last : 100 * c + 4 * b + y ≤ 141 ∨ 100 * c + 4 * b + y = 142 ∧ r ≤ 305 := by omega
      rw [hera]
      split <;> omega
    · split <;> omega

/-- The days that the calendar reaches have valid dates. -/
theorem isValid_ofDays {days : Int} (hlow : Instant.minSeconds / Instant.secondsPerDay ≤ days)
    (hhigh : days ≤ Instant.maxSeconds / Instant.secondsPerDay) :
    (ofDays days).isValid = true := by
  obtain ⟨c, b, y, r, h⟩ := exists_splits ((days + 719468) % 146097) (by omega) (by omega)
  have hr := h.rest
  have years := h.year_mem hlow hhigh
  rw [h.ofDays_eq, ofMarch]
  -- The civil month, and with it the civil year.
  obtain ⟨civil, hcivil⟩ : ∃ civil, (if (5 * r + 2) / 153 < 10 then (5 * r + 2) / 153 + 3
      else (5 * r + 2) / 153 - 9) = civil := ⟨_, rfl⟩
  have turn : (if civil ≤ 2 then (1 : Int) else 0) = if (5 * r + 2) / 153 < 10 then 0 else 1 := by
    rw [← hcivil]
    split <;> split <;> omega
  have range : 1 ≤ civil ∧ civil ≤ 12 := by
    rw [← hcivil]
    split <;> omega
  have inMonth := le_daysInMonth (100 * c + 4 * b + y + (days + 719468) / 146097 * 400 +
      (if (5 * r + 2) / 153 < 10 then 0 else 1)) hr fun hlast => by
    rw [if_neg (by omega)]
    exact h.isLeapYear hlast _
  simp only [hcivil] at inMonth ⊢
  rw [turn]
  simp only [isValid, Bool.and_eq_true, decide_eq_true_iff]
  exact ⟨⟨⟨⟨years, by omega⟩, by omega⟩, by omega⟩, inMonth⟩

end Parley.Date
