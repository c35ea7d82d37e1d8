import Mathlib

/-! The Gregorian calendar, day by day, and the years that begin with March. -/
namespace Gregorian
structure Date where
  year : ℕ
  month : ℕ
  day : ℕ
deriving DecidableEq

def leap (year : ℕ) : Bool := year % 4 = 0 ∧ (year % 100 ≠ 0 ∨ year % 400 = 0)

def monthLength (year month : ℕ) : ℕ :=
  if month = 2 then if leap year then 29 else 28
  else if month ∈ [4, 6, 9, 11] then 30 else 31

def Date.next (d : Date) : Date :=
  if d.day < monthLength d.year d.month then { d with day := d.day + 1 }
  else if d.month < 12 then ⟨d.year, d.month + 1, 1⟩
  else ⟨d.year + 1, 1, 1⟩

structure Time where
  date : Date
  hour : ℕ
  minute : ℕ
  second : ℕ

def Time.next (t : Time) : Time :=
  if t.second < 59 then { t with second := t.second + 1 }
  else if t.minute < 59 then { t with minute := t.minute + 1, second := 0 }
  else if t.hour < 23 then { t with hour := t.hour + 1, minute := 0, second := 0 }
  else ⟨t.date.next, 0, 0, 0⟩

/-- UTC without leap seconds, from the first second of 1970 on. -/
def utc (s : ℕ) : Time := Time.next^[s] ⟨⟨1970, 1, 1⟩, 0, 0, 0⟩

theorem utc_succ (s : ℕ) : utc (s + 1) = (utc s).next := Function.iterate_succ_apply' ..

def Time.numbers (t : Time) : List ℕ :=
  [t.date.year, t.date.month, t.date.day, t.hour, t.minute, t.second]

theorem strictMono_numbers : StrictMono fun s => (utc s).numbers := by
  apply strictMono_nat_of_lt_succ
  intro s
  rw [utc_succ]
  unfold Time.next Date.next Time.numbers
  split_ifs <;> simp [List.cons_lt_cons_iff]

theorem utc_bounds (s : ℕ) : (utc s).date.month ≤ 12 ∧ (utc s).date.day ≤ 31 ∧ (utc s).hour < 24 ∧
    (utc s).minute < 60 ∧ (utc s).second < 60 := by
  induction s with
  | zero => decide
  | succ s ih =>
    have hlength : monthLength (utc s).date.year (utc s).date.month ≤ 31 := by
      unfold monthLength
      split_ifs <;> decide
    rw [utc_succ]
    unfold Time.next Date.next
    split_ifs <;> dsimp only <;> omega

/-- A day of the year that begins with March. -/
def ofMarch (year doy : ℕ) : Date :=
  let mp := (5 * doy + 2) / 153
  let d := doy - (153 * mp + 2) / 5 + 1
  let m := if mp < 10 then mp + 3 else mp - 9
  ⟨if m ≤ 2 then year + 1 else year, m, d⟩

def yearLength (year : ℕ) : ℕ := if leap (year + 1) then 366 else 365

def eraDays (year : ℕ) : ℕ := 365 * year + year / 4 - year / 100 + year / 400

def yearOfEra (doe : ℕ) : ℕ := (doe - doe / 1460 + doe / 36524 - doe / 146096) / 365

variable {year doy doe : ℕ}
theorem next_ofMarch (h : doy + 1 < yearLength year) :
    (ofMarch year doy).next = ofMarch year (doy + 1) := by
  unfold yearLength at h
  obtain ⟨mp, hmp⟩ : ∃ mp, mp = (5 * doy + 2) / 153 := ⟨_, rfl⟩
  have hmonth : mp < 12 := by
    split at h <;> omega
  have hnext : (5 * (doy + 1) + 2) / 153 =
      if doy + 1 < (153 * (mp + 1) + 2) / 5 then mp else mp + 1 := by
    split at h <;> split <;> omega
  unfold ofMarch Date.next
  simp only [← hmp, hnext]
  -- one case for each month
  interval_cases mp <;> simp [monthLength] <;> grind

theorem next_ofMarch_last (h : doy + 1 = yearLength year) :
    (ofMarch year doy).next = ofMarch (year + 1) 0 := by
  unfold yearLength at h
  cases hleap : leap (year + 1) with
  | true =>
    obtain rfl : doy = 365 := by simpa [hleap] using h
    simp [ofMarch, Date.next, monthLength, hleap]
  | false =>
    obtain rfl : doy = 364 := by simpa [hleap] using h
    simp [ofMarch, Date.next, monthLength, hleap]

theorem eraDays_succ (era : ℕ) (h : year < 400) :
    eraDays (year + 1) = eraDays year + yearLength (400 * era + year) := by
  unfold eraDays yearLength leap
  grind

theorem yearOfEra_mono : Monotone yearOfEra := by
  apply monotone_nat_of_le_succ
  intro n
  unfold yearOfEra
  omega

theorem yearOfEra_eq (h : year < 400) (hle : eraDays year ≤ doe) (hlt : doe < eraDays (year + 1)) :
    yearOfEra doe = year := by
  -- the first and the last day of the year decide
  have hends : ∀ year < 400, yearOfEra (eraDays year) = year ∧
      yearOfEra (eraDays (year + 1) - 1) = year := by decide +kernel
  obtain ⟨hfirst, hlast⟩ := hends year h
  have hlower := yearOfEra_mono hle
  have hupper := yearOfEra_mono (Nat.le_sub_one_of_lt hlt)
  omega

theorem exists_ofMarch (days : ℕ) : ∃ era year doy, year < 400 ∧
    days + 719468 = era * 146097 + eraDays year + doy ∧ doy < yearLength (400 * era + year) ∧
    Date.next^[days] ⟨1970, 1, 1⟩ = ofMarch (400 * era + year) doy := by
  induction days with
  | zero => exact ⟨4, 369, 306, by decide⟩
  | succ days ih =>
    obtain ⟨era, year, doy, hyear, hdays, hdoy, hdate⟩ := ih
    have hsucc := eraDays_succ era hyear
    have hpos (year : ℕ) : 0 < yearLength year := by
      unfold yearLength
      split <;> decide
    rw [Function.iterate_succ_apply', hdate]
    obtain hlt | hlast := Nat.lt_or_eq_of_le (Nat.succ_le_of_lt hdoy)
    · exact ⟨era, year, doy + 1, hyear, by omega, hlt, next_ofMarch hlt⟩
    · rw [next_ofMarch_last hlast]
      by_cases hera : year + 1 < 400
      · exact ⟨era, year + 1, 0, hera, by omega, hpos _, rfl⟩
      · obtain rfl : year = 399 := by omega
        have hwhole : eraDays (399 + 1) = 146097 := by decide
        have hnone : eraDays 0 = 0 := by decide
        exact ⟨era + 1, 0, 0, by decide, by omega, hpos _, rfl⟩

end Gregorian
