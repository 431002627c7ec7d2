/-
Instants that are written out read back.

* `Instant.readDigits_padded`, `Instant.readYear_yearText`, `Instant.readNanos_fractionText` —
  each part of the text is read as it was written, with what follows it left;
* `Instant.IsValid.ofLocal?` — the parts name the instant that they were taken from, leap
  seconds included;
* `Instant.read?_text` — so a valid instant comes back;
* `Instant.isValid_of_read?` — and nothing else is ever read.
-/
import Mathlib
import Parley.Instant.Rfc3339
import Parley.Proofs.Instant.Calendar
import Parley.Proofs.Text.Numeral

namespace Parley.Instant

/-! ### Numbers of fixed width -/

theorem isDigit_padded {width n : Nat} {c : Char} (hc : c ∈ padded width n) :
    c.isDigit = true := by
  rcases List.mem_append.mp hc with hc | hc
  · obtain rfl := (List.mem_replicate.mp hc).2
    rfl
  · exact Nat.isDigit_of_mem_toDigits (by decide) (by decide) hc

theorem length_padded {width n : Nat} (hwidth : 0 < width) (h : n < 10 ^ width) :
    (padded width n).length = width := by
  have fits := (Nat.length_toDigits_le_iff (b := 10) (by decide) hwidth).mpr h
  rw [padded, List.length_append, List.length_replicate]
  omega

/-- Zeros in front count for nothing. -/
theorem digits?_padded (width n : Nat) : Text.digits? (padded width n) = some n := by
  have read : Text.digitsFrom 0 (padded width n) = some n := by
    rw [Text.digitsFrom_eq fun c => isDigit_padded, padded, Nat.ofDigitChars_append,
      Nat.ofDigitChars_replicate_zero, Nat.mul_zero, Nat.ofDigitChars_ten_toDigits]
  cases hdigits : padded width n with
  | nil =>
    exact absurd (List.append_eq_nil_iff.mp hdigits).2 Nat.toDigits_ne_nil
  | cons c rest =>
    rw [hdigits] at read
    exact read

theorem readDigits_padded {width n : Nat} (hwidth : 0 < width) (h : n < 10 ^ width)
    (rest : List Char) : readDigits (some width) (padded width n ++ rest) = some (n, rest) := by
  have length := length_padded hwidth h
  have taken : ((padded width n ++ rest).take width).takeWhile Char.isDigit = padded width n := by
    rw [List.take_left' length]
    exact List.takeWhile_eq_self_iff.mpr fun c => isDigit_padded
  rw [readDigits]
  simp only [taken, digits?_padded, Option.map_some, length]
  rw [List.drop_left' length]

theorem takeWhile_padded (width n : Nat) {c : Char} (hc : c.isDigit = false) (rest : List Char) :
    (padded width n ++ c :: rest).takeWhile Char.isDigit = padded width n := by
  rw [List.takeWhile_append_of_pos fun c => isDigit_padded,
    List.takeWhile_cons_of_neg (by simp [hc]), List.append_nil]

theorem readDigits_none_padded (width n : Nat) {c : Char} (hc : c.isDigit = false)
    (rest : List Char) : readDigits none (padded width n ++ c :: rest) = some (n, c :: rest) := by
  rw [readDigits]
  simp only [takeWhile_padded width n hc rest, digits?_padded, Option.map_some, List.drop_left]

theorem skipBlanks_cons {c : Char} (hc : Text.isBlank c = false) (cs : List Char) :
    skipBlanks (c :: cs) = c :: cs := List.dropWhile_cons_of_neg (by simp [hc])

theorem exists_padded (width n : Nat) : ∃ c cs, padded width n = c :: cs ∧ c.isDigit = true := by
  cases hdigits : padded width n with
  | nil => exact absurd (List.append_eq_nil_iff.mp hdigits).2 Nat.toDigits_ne_nil
  | cons c cs => exact ⟨c, cs, rfl, isDigit_padded (hdigits ▸ List.mem_cons_self)⟩

theorem isBlank_of_isDigit {c : Char} (hc : c.isDigit = true) : Text.isBlank c = false :=
  Text.isBlank_of_isNumeric (by rw [Text.isNumeric, hc, Bool.true_or])

theorem skipBlanks_padded (width n : Nat) (rest : List Char) :
    skipBlanks (padded width n ++ rest) = padded width n ++ rest := by
  obtain ⟨c, cs, heq, hdigit⟩ := exists_padded width n
  rw [heq]
  exact skipBlanks_cons (isBlank_of_isDigit hdigit) _

theorem readNumber_padded {width n : Nat} (hwidth : 0 < width) (h : n < 10 ^ width)
    (rest : List Char) : readNumber width (padded width n ++ rest) = some (n, rest) := by
  rw [readNumber, skipBlanks_padded, readDigits_padded hwidth h]

theorem readMark_cons {mark : Char} (h : Text.isBlank mark = false) (rest : List Char) :
    readMark mark (mark :: rest) = some rest := by
  rw [readMark, skipBlanks_cons h]
  exact if_pos rfl

/-- A year is read as it is written, if what follows is no digit. -/
theorem readYear_yearText (year : Int) {c : Char} (hc : c.isDigit = false) (rest : List Char) :
    readYear (yearText year ++ c :: rest) = some (year, c :: rest) := by
  rw [yearText]
  split
  · rename_i h
    have small : year.toNat < 10 ^ 4 := by omega
    obtain ⟨d, ds, heq, hdigit⟩ := exists_padded 4 year.toNat
    have read := readDigits_padded (by decide) small (c :: rest)
    rw [readYear, skipBlanks_padded]
    rw [heq] at read ⊢
    rw [List.cons_append] at read ⊢
    split
    · rename_i hminus
      obtain ⟨rfl, -⟩ := List.cons.inj hminus
      exact absurd hdigit (by decide)
    · rename_i hplus
      obtain ⟨rfl, -⟩ := List.cons.inj hplus
      exact absurd hdigit (by decide)
    · rw [read]
      exact congrArg (fun n => some (n, c :: rest)) (Int.toNat_of_nonneg h.1)
  · split
    · rename_i h
      rw [List.cons_append, readYear, skipBlanks_cons (by decide)]
      simp only [readDigits_none_padded 4 _ hc, Option.map_some]
      congr 2
      omega
    · rename_i h h'
      rw [List.cons_append, readYear, skipBlanks_cons (by decide)]
      simp only [readDigits_none_padded 4 _ hc, Option.map_some]
      congr 2
      omega

theorem readNanos_padded {width n : Nat} (hwidth : 0 < width ∧ width ≤ 9) (h : n < 10 ^ width)
    {c : Char} (hc : c.isDigit = false) (rest : List Char) :
    readNanos ('.' :: (padded width n ++ c :: rest)) =
      some (n * 10 ^ (9 - width), c :: rest) := by
  have length := length_padded hwidth.1 h
  have all : (padded width n).take 9 = padded width n :=
    List.take_of_length_le (by omega)
  rw [readNanos]
  simp only [takeWhile_padded width n hc rest, all, digits?_padded, Option.map_some, length]
  rw [List.drop_left' length]
  rfl

/-- The digits after the point are the fewest that keep the value, and keep it. -/
theorem readNanos_fractionText {nanos : Nat} (h : nanos < nanosPerSecond) (rest : List Char) :
    readNanos (fractionText nanos ++ 'Z' :: rest) = some (nanos, 'Z' :: rest) := by
  have h : nanos < 1000000000 := h
  have kept (width scale : Nat) (hscale : 10 ^ (9 - width) = scale) (hwidth : 0 < width ∧ width ≤ 9)
      (hwhole : nanos % scale = 0) (hsmall : nanos / scale < 10 ^ width) :
      readNanos ('.' :: (padded width (nanos / scale) ++ 'Z' :: rest)) =
        some (nanos, 'Z' :: rest) := by
    rw [readNanos_padded hwidth hsmall (by decide), hscale,
      Nat.div_mul_cancel (Nat.dvd_of_mod_eq_zero hwhole)]
  rw [fractionText]
  split
  · rename_i hzero
    rw [hzero]
    rfl
  · split
    · rename_i hmillis
      exact kept 3 1000000 rfl (by decide) hmillis (by omega)
    · split
      · rename_i hmicros
        exact kept 6 1000 rfl (by decide) hmicros (by omega)
      · have exact := kept 9 1 rfl (by decide) (Nat.mod_one _) (by omega)
        rw [Nat.div_one] at exact
        exact exact

/-! ### Instants -/

/-- An instant that the calendar reaches, in a second that is there: only a minute can end
with a leap second. -/
structure IsValid (a : Instant) : Prop where
  inRange : a.inRange = true
  nanos : a.nanos < 2 * nanosPerSecond
  leap : a.isLeap = true → a.seconds % 60 = 59

theorem IsValid.date {a : Instant} (h : a.IsValid) : a.date.isValid = true := by
  have hrange := h.inRange
  rw [Instant.inRange, Bool.and_eq_true, decide_eq_true_iff, decide_eq_true_iff] at hrange
  exact Date.isValid_ofDays (Int.ediv_le_ediv (by decide) hrange.1)
    (Int.ediv_le_ediv (by decide) hrange.2)

theorem daysInMonth_le (year : Int) (month : Nat) : Date.daysInMonth year month ≤ 31 := by
  rw [Date.daysInMonth]
  split
  · split <;> omega
  · split <;> omega

/-- A local time in UTC is the instant of which it was taken. -/
theorem IsValid.ofLocal? {a : Instant} (h : a.IsValid) :
    let time := a.timeOfDay.toNat
    Instant.ofLocal? a.date (time / 3600) (time / 60 % 60)
      (time % 60 + (if a.isLeap then 1 else 0)) (a.nanos % nanosPerSecond) 0 = some a := by
  intro time
  have htime : (time : Int) = a.seconds % 86400 := Int.toNat_of_nonneg (by
    show 0 ≤ a.seconds % 86400
    omega)
  clear_value time
  have hdays : a.date.toDays = a.seconds / 86400 := Date.toDays_ofDays _
  have hnanos : a.nanos < 2 * 1000000000 := h.nanos
  -- A leap second is written as the sixtieth, and read as a longer fifty-ninth.
  have read : ∀ second nanos : Nat, time % 60 + (if a.isLeap then 1 else 0) = second →
      a.nanos % nanosPerSecond = nanos →
      (if second = 60 then 59 else second) = time % 60 ∧
        (if second = 60 then nanos + nanosPerSecond else nanos) = a.nanos ∧ second ≤ 60 := by
    rintro second nanos rfl rfl
    cases hleap : a.isLeap with
    | true =>
      have hlast := h.leap hleap
      have hlong : 1000000000 ≤ a.nanos := of_decide_eq_true hleap
      have hsixty : time % 60 + 1 = 60 := by omega
      simp only [if_true, hsixty]
      refine ⟨by omega, ?_, by omega⟩
      show a.nanos % 1000000000 + 1000000000 = a.nanos
      omega
    | false =>
      have hshort : ¬ 1000000000 ≤ a.nanos := of_decide_eq_false hleap
      have hless : ¬ time % 60 = 60 := by omega
      simp only [Bool.false_eq_true, if_false, Nat.add_zero, hless]
      refine ⟨trivial, ?_, by omega⟩
      show a.nanos % 1000000000 = a.nanos
      omega
  obtain ⟨hsecond, hnano, hle⟩ := read _ _ rfl rfl
  have whole : ofDate a.date ((time / 3600 : Nat) * 3600 + (time / 60 % 60 : Nat) * 60 +
      (time % 60 : Nat) - 0) a.nanos = a := by
    rw [ofDate, hdays]
    show (⟨a.seconds / 86400 * 86400 + _, a.nanos⟩ : Instant) = ⟨a.seconds, a.nanos⟩
    congr 1
    omega
  rw [Instant.ofLocal?]
  simp only [hsecond, hnano, whole, h.date, h.inRange, hle]
  rw [if_pos]
  simp only [Bool.and_eq_true, decide_eq_true_iff]
  refine ⟨⟨⟨⟨⟨trivial, ?_⟩, ?_⟩, trivial⟩, ?_⟩, trivial⟩
  · omega
  · omega
  · decide

/-- What stands between the marks is read as the parts of a date and a time. -/
theorem readChars_parts (year : Int) {month day hour minute second nanos : Nat}
    (hmonth : month < 100) (hday : day < 100) (hhour : hour < 100) (hminute : minute < 100)
    (hsecond : second < 100) (hnanos : nanos < nanosPerSecond) :
    readChars (yearText year ++ '-' :: (padded 2 month ++ '-' :: (padded 2 day ++
      'T' :: (padded 2 hour ++ ':' :: (padded 2 minute ++ ':' :: (padded 2 second ++
        (fractionText nanos ++ ['Z']))))))) =
      Instant.ofLocal? ⟨year, month, day⟩ hour minute second nanos 0 := by
  have two {n : Nat} (hn : n < 100) (rest : List Char) :
      readNumber 2 (padded 2 n ++ rest) = some (n, rest) := readNumber_padded (by decide) hn rest
  have dash := readMark_cons (show Text.isBlank '-' = false by decide)
  have colon := readMark_cons (show Text.isBlank ':' = false by decide)
  rw [readChars, readYear_yearText year (by decide)]
  dsimp only [Option.bind_eq_bind, Option.bind_some]
  rw [dash, Option.bind_some, two hmonth, Option.bind_some, dash, Option.bind_some, two hday,
    Option.bind_some]
  dsimp only
  rw [if_pos (by decide), two hhour, Option.bind_some, colon, Option.bind_some,
    two hminute, Option.bind_some, colon, Option.bind_some, two hsecond, Option.bind_some,
    readNanos_fractionText hnanos]
  rfl

/-- A valid instant is read as it is written. -/
theorem read?_text {a : Instant} (h : a.IsValid) : read? a.text = some a := by
  have htime : a.timeOfDay.toNat < 86400 := by
    show (a.seconds % 86400).toNat < 86400
    omega
  have hdate := h.date
  simp only [Date.isValid, Bool.and_eq_true, decide_eq_true_iff] at hdate
  obtain ⟨⟨⟨-, hmonth⟩, -⟩, hday⟩ := hdate
  have hdays := daysInMonth_le a.date.year a.date.month
  have hsecond : a.timeOfDay.toNat % 60 + (if a.isLeap then 1 else 0) < 100 := by
    split <;> omega
  rw [read?, text, String.toList_ofList, civilText]
  simp only [List.append_assoc, List.cons_append]
  rw [readChars_parts a.date.year (by omega) (by omega) (by omega) (by omega) hsecond
    (Nat.mod_lt _ (by decide))]
  exact h.ofLocal?

/-! ### What can be read -/

theorem digitsFrom_lt {cs : List Char} {acc n : Nat} (h : Text.digitsFrom acc cs = some n) :
    n < (acc + 1) * 10 ^ cs.length := by
  induction cs generalizing acc with
  | nil =>
    obtain rfl := Option.some.inj h
    simp
  | cons c rest ih =>
    rw [Text.digitsFrom] at h
    split at h
    · rename_i hdigit
      have hcode : c.toNat ≤ 57 := hdigit.2
      have hstep : acc * 10 + (c.toNat - 48) + 1 ≤ (acc + 1) * 10 := by omega
      calc n < (acc * 10 + (c.toNat - 48) + 1) * 10 ^ rest.length := ih h
        _ ≤ (acc + 1) * 10 * 10 ^ rest.length := Nat.mul_le_mul_right _ hstep
        _ = (acc + 1) * 10 ^ (rest.length + 1) := by rw [Nat.pow_succ', Nat.mul_assoc]
    · exact absurd h (by simp)

theorem digits?_lt {cs : List Char} {n : Nat} (h : Text.digits? cs = some n) :
    n < 10 ^ cs.length := by
  cases cs with
  | nil => exact absurd h (by simp [Text.digits?])
  | cons c rest =>
    have hlt := digitsFrom_lt h
    simpa using hlt

/-- A fraction of a second stays below the second. -/
theorem readNanos_lt {cs rest : List Char} {nanos : Nat} (h : readNanos cs = some (nanos, rest)) :
    nanos < nanosPerSecond := by
  rw [readNanos.eq_def] at h
  split at h
  · obtain ⟨n, hn, heq⟩ := Option.map_eq_some_iff.mp h
    obtain ⟨rfl, -⟩ := Prod.mk.inj heq
    rename_i cs
    have hlength : ((cs.takeWhile Char.isDigit).take 9).length ≤ 9 := by simp
    calc n * 10 ^ (9 - ((cs.takeWhile Char.isDigit).take 9).length)
        < 10 ^ ((cs.takeWhile Char.isDigit).take 9).length *
            10 ^ (9 - ((cs.takeWhile Char.isDigit).take 9).length) :=
          Nat.mul_lt_mul_of_pos_right (digits?_lt hn) (by positivity)
      _ = 10 ^ 9 := by rw [← Nat.pow_add, Nat.add_sub_cancel' hlength]
  · obtain ⟨rfl, -⟩ := Prod.mk.inj (Option.some.inj h)
    decide

/-- Offsets are whole minutes. -/
theorem readOffset_whole {cs rest : List Char} {offset : Int}
    (h : readOffset cs = some (offset, rest)) : offset % 60 = 0 := by
  rw [readOffset.eq_def] at h
  split at h
  · exact absurd h (by simp)
  · split at h
    · obtain ⟨rfl, -⟩ := Prod.mk.inj (Option.some.inj h)
      rfl
    · dsimp only at h
      split at h
      · split at h
        · split at h
          · split at h
            · obtain ⟨rfl, -⟩ := Prod.mk.inj (Option.some.inj h)
              have whole (sign hours minutes : Int) :
                  sign * (hours * 3600 + minutes * 60) = sign * (hours * 60 + minutes) * 60 := by
                ring
              rw [whole]
              exact Int.mul_emod_left _ _
            · exact absurd h (by simp)
          · exact absurd h (by simp)
        · exact absurd h (by simp)
      · exact absurd h (by simp)

theorem readZone_whole {cs rest : List Char} {offset : Int}
    (h : readZone cs = some (offset, rest)) : offset % 60 = 0 := by
  rw [readZone.eq_def] at h
  split at h
  · split at h
    · obtain ⟨rfl, -⟩ := Prod.mk.inj (Option.some.inj h)
      rfl
    · exact readOffset_whole h
  · exact readOffset_whole h

/-- The sixtieth second of a minute is read as a leap second of the minute's last. -/
theorem isValid_of_ofLocal? {d : Date} {hour minute second nanos : Nat} {offset : Int} {a : Instant}
    (hnanos : nanos < nanosPerSecond) (hoffset : offset % 60 = 0)
    (h : ofLocal? d hour minute second nanos offset = some a) : a.IsValid := by
  rw [ofLocal?] at h
  obtain ⟨hchecks, heq⟩ := Option.ite_none_right_eq_some.mp h
  obtain rfl := Option.some.inj heq
  simp only [Bool.and_eq_true] at hchecks
  have hnanos : nanos < 1000000000 := hnanos
  refine ⟨hchecks.2, ?_, fun hleap => ?_⟩
  · show (if second = 60 then nanos + 1000000000 else nanos) < 2 * 1000000000
    split <;> omega
  · have hlong : 1000000000 ≤ if second = 60 then nanos + 1000000000 else nanos :=
      of_decide_eq_true hleap
    have hsixty : second = 60 := by
      by_contra hne
      rw [if_neg hne] at hlong
      omega
    show (d.toDays * 86400 + ((hour * 3600 + minute * 60 + (if second = 60 then 59 else second) : Int) -
      offset)) % 60 = 59
    rw [if_pos hsixty]
    omega

/-- Whatever is read is an instant that can be written. -/
theorem isValid_of_read? {s : String} {a : Instant} (h : read? s = some a) : a.IsValid := by
  rw [read?, readChars] at h
  obtain ⟨⟨year, _⟩, -, h⟩ := Option.bind_eq_some_iff.mp h
  obtain ⟨_, -, h⟩ := Option.bind_eq_some_iff.mp h
  obtain ⟨⟨month, _⟩, -, h⟩ := Option.bind_eq_some_iff.mp h
  obtain ⟨_, -, h⟩ := Option.bind_eq_some_iff.mp h
  obtain ⟨⟨day, _⟩, -, h⟩ := Option.bind_eq_some_iff.mp h
  dsimp only at h
  split at h
  swap
  · exact absurd h nofun
  split at h
  swap
  · exact absurd h nofun
  obtain ⟨_, -, h⟩ := Option.bind_eq_some_iff.mp h
  obtain ⟨⟨hour, _⟩, -, h⟩ := Option.bind_eq_some_iff.mp h
  obtain ⟨_, -, h⟩ := Option.bind_eq_some_iff.mp h
  obtain ⟨⟨minute, _⟩, -, h⟩ := Option.bind_eq_some_iff.mp h
  obtain ⟨_, -, h⟩ := Option.bind_eq_some_iff.mp h
  obtain ⟨⟨second, _⟩, -, h⟩ := Option.bind_eq_some_iff.mp h
  obtain ⟨⟨nanos, _⟩, hnanos, h⟩ := Option.bind_eq_some_iff.mp h
  obtain ⟨⟨offset, _⟩, hoffset, h⟩ := Option.bind_eq_some_iff.mp h
  dsimp only at h
  split at h
  · exact isValid_of_ofLocal? (readNanos_lt hnanos) (readZone_whole hoffset) h
  · exact absurd h (by simp)

end Parley.Instant
