import Tako.Gregorian

/-! The dates and times of the log lines, which are computed in closed form, and the filter
that compares them as texts. -/
namespace Tako.Logs
open Gregorian List
abbrev Bytes := List UInt8

def dateTime (secs : ℕ) : Time :=
  let days := secs / 86400
  let timeSecs := secs % 86400
  let hours := timeSecs / 3600
  let minutes := timeSecs % 3600 / 60
  let seconds := timeSecs % 60
  let z := days + 719468
  let era := z / 146097
  let doe := z % 146097
  let yoe := (doe - doe / 1460 + doe / 36524 - doe / 146096) / 365
  let y := yoe + era * 400
  let doy := doe - (365 * yoe + yoe / 4 - yoe / 100)
  let mp := (5 * doy + 2) / 153
  let d := doy - (153 * mp + 2) / 5 + 1
  let m := if mp < 10 then mp + 3 else mp - 9
  let y := if m ≤ 2 then y + 1 else y
  ⟨⟨y, m, d⟩, hours, minutes, seconds⟩

/-- `{n:0width}`: as many digits as `width`, or more where they are needed. -/
def padded : ℕ → ℕ → Bytes
  | 0, n => (Nat.digits 10 n).reverse.map fun digit => UInt8.ofNat (48 + digit)
  | width + 1, n => padded width (n / 10) ++ [UInt8.ofNat (48 + n % 10)]

abbrev Form := List (Bytes × ℕ)

def format : Form → List ℕ → Bytes
  | (before, width) :: form, n :: numbers => before ++ padded width n ++ format form numbers
  | _, _ => []

/-- `{y:04}-{m:02}-{d:02}T{hours:02}:{minutes:02}:{seconds:02}` -/
def form : Form := [([], 4), ([45], 2), ([45], 2), ([84], 2), ([58], 2), ([58], 2)]

def formatUnixSecsUtc (secs : ℤ) : Bytes := format form (dateTime secs.toNat).numbers

/-- The clock is at a number of seconds and milliseconds. -/
def formatUtcNow (secs millis : ℕ) : Bytes :=
  format form (dateTime secs).numbers ++ 46 :: padded 3 millis ++ [90]

/-- `text.get(..n)`: nothing where the text is shorter or a character goes on. -/
def getTo (n : ℕ) (text : Bytes) : Option Bytes :=
  if text.length < n ∨ ∃ byte ∈ text[n]?, 0x80 ≤ byte ∧ byte < 0xc0 then none else text.take n

def lineMatchesCutoff (line cutoff : Bytes) : Bool :=
  match getTo 19 line with
  | none => true
  | some timestamp =>
    if timestamp[4]? ≠ some 45 ∨ timestamp[10]? ≠ some 84 then true else cutoff ≤ timestamp

theorem dateTime_date (secs : ℕ) :
    (dateTime secs).date = Date.next^[secs / 86400] ⟨1970, 1, 1⟩ := by
  obtain ⟨era, year, doy, hyear, hdays, hdoy, hdate⟩ := exists_ofMarch (secs / 86400)
  have hsucc := eraDays_succ era hyear
  have hall : ∀ year < 400, eraDays (year + 1) ≤ 146097 := by decide +kernel
  have hwhole := hall year hyear
  have hera : (secs / 86400 + 719468) / 146097 = era := by omega
  have hdoe : (secs / 86400 + 719468) % 146097 = eraDays year + doy := by omega
  have hyoe : yearOfEra (eraDays year + doy) = year := yearOfEra_eq hyear (by omega) (by omega)
  have hstart : eraDays year = 365 * year + year / 4 - year / 100 := by
    rw [eraDays, Nat.div_eq_of_lt hyear, add_zero]
  unfold yearOfEra at hyoe
  rw [hdate]
  unfold dateTime ofMarch
  simp only [hera, hdoe, hyoe, ← hstart, Nat.add_sub_cancel_left, add_comm year, mul_comm era]

theorem dateTime_eq (secs : ℕ) : dateTime secs = utc secs := by
  have hutc : utc secs = ⟨Date.next^[secs / 86400] ⟨1970, 1, 1⟩, secs % 86400 / 3600,
      secs % 86400 % 3600 / 60, secs % 86400 % 60⟩ := by
    induction secs with
    | zero => rfl
    | succ secs ih =>
      rw [utc_succ, ih, Time.next]
      by_cases hlast : secs % 86400 = 86399
      · have hday : (secs + 1) / 86400 = secs / 86400 + 1 := by omega
        have hzero : (secs + 1) % 86400 = 0 := by omega
        rw [hlast, hday, hzero, Function.iterate_succ_apply']
        rfl
      · have hday : (secs + 1) / 86400 = secs / 86400 := by omega
        have hnext : (secs + 1) % 86400 = secs % 86400 + 1 := by omega
        rw [hday, hnext]
        dsimp only
        split_ifs <;> simp only [Time.mk.injEq, true_and] <;> omega
  rw [hutc, ← dateTime_date]
  rfl

section
variable {w m n : ℕ}
theorem length_padded (h : n < 10 ^ w) : (padded w n).length = w := by
  induction w generalizing n with
  | zero => simp_all [padded]
  | succ w ih =>
    rw [padded, length_append, ih (by omega)]
    rfl

theorem append_lt_append {l l' x y : Bytes} (hlength : l.length = l'.length) (h : l < l') :
    l ++ x < l' ++ y := by
  induction l generalizing l' with
  | nil => exact absurd (length_eq_zero_iff.mp hlength.symm ▸ h) (List.lt_irrefl _)
  | cons c l ih =>
    cases l' with
    | nil => cases hlength
    | cons c' l' =>
      rw [cons_append, cons_append, cons_lt_cons_iff]
      obtain hc | ⟨rfl, hrest⟩ := cons_lt_cons_iff.mp h
      · exact .inl hc
      · exact .inr ⟨rfl, ih (Nat.succ.inj hlength) hrest⟩

theorem padded_lt (h : m < n) (hn : n < 10 ^ w) : padded w m < padded w n := by
  induction w generalizing m n with
  | zero => omega
  | succ w ih =>
    rw [padded, padded]
    obtain hlt | heq := Nat.lt_or_eq_of_le (Nat.div_le_div_right (c := 10) h.le)
    · refine append_lt_append ?_ (ih hlt (by omega))
      rw [length_padded (by omega), length_padded (by omega)]
    · rw [heq]
      apply append_left_lt (cons_lt_cons_iff.mpr (.inl _))
      rw [UInt8.lt_iff_toNat_lt, UInt8.toNat_ofNat', UInt8.toNat_ofNat']
      omega

def Fits (part : Bytes × ℕ) (n : ℕ) : Prop := n < 10 ^ part.2

theorem format_lt {form : Form} {a b : List ℕ} (ha : Forall₂ Fits form a)
    (hb : Forall₂ Fits form b) (h : a < b) : format form a < format form b := by
  induction ha generalizing b with
  | nil =>
    cases hb
    exact absurd h (lt_irrefl _)
  | cons hm _ ih =>
    cases hb with
    | cons hn hb =>
      rw [format, format, append_assoc, append_assoc]
      apply append_left_lt
      obtain hlt | ⟨rfl, hrest⟩ := cons_lt_cons_iff.mp h
      · exact append_lt_append ((length_padded hm).trans (length_padded hn).symm) (padded_lt hlt hn)
      · exact append_left_lt (ih hb hrest)
end

variable {s : ℕ}
theorem fits_numbers (h : (utc s).date.year < 10000) : Forall₂ Fits form (utc s).numbers := by
  obtain ⟨hmonth, hday, hhour, hminute, hsecond⟩ := utc_bounds s
  simp only [form, Time.numbers, forall₂_cons, forall₂_nil_right_iff, Fits, and_true]
  omega

theorem format_lt_iff {t : ℕ} (hs : (utc s).date.year < 10000) (ht : (utc t).date.year < 10000) :
    format form (utc s).numbers < format form (utc t).numbers ↔ s < t := by
  have hmono {s t : ℕ} (hs : (utc s).date.year < 10000) (ht : (utc t).date.year < 10000)
      (h : s < t) : format form (utc s).numbers < format form (utc t).numbers :=
    format_lt (fits_numbers hs) (fits_numbers ht) (strictMono_numbers h)
  refine ⟨fun h => ?_, hmono hs ht⟩
  by_contra hle
  obtain hlt | rfl := Nat.lt_or_eq_of_le (Nat.le_of_not_lt hle)
  · exact List.lt_asymm h (hmono ht hs hlt)
  · exact List.lt_irrefl _ h

theorem lineMatchesCutoff_stamped (h : (utc s).date.year < 10000) (rest cutoff : Bytes) :
    lineMatchesCutoff (format form (utc s).numbers ++ 46 :: rest) cutoff =
      decide (cutoff ≤ format form (utc s).numbers) := by
  have hfits := fits_numbers h
  simp only [form, Time.numbers, forall₂_cons, forall₂_nil_right_iff, Fits, and_true] at hfits
  obtain ⟨hyear, hmonth, hday, hhour, hminute, hsecond⟩ := hfits
  have hlength : (format form (utc s).numbers).length = 19 := by
    simp [format, form, Time.numbers, length_padded hyear, length_padded hmonth,
      length_padded hday, length_padded hhour, length_padded hminute, length_padded hsecond]
  have hget : getTo 19 (format form (utc s).numbers ++ 46 :: rest) =
      some (format form (utc s).numbers) := by
    rw [getTo, if_neg]
    · rw [← hlength, take_left]
    · simp [hlength]
  have hdash : (format form (utc s).numbers)[4]? = some 45 := by
    simp [format, form, Time.numbers, length_padded hyear]
  have ht : (format form (utc s).numbers)[10]? = some 84 := by
    simp [format, form, Time.numbers, getElem?_append, length_padded hyear, length_padded hmonth,
      length_padded hday]
  simp [lineMatchesCutoff, hget, hdash, ht]

/-- The texts are the dates and times of UTC, they are sorted like the seconds, and the
filter keeps the lines of the cut-off second and after it. -/
theorem log_clock_sorts_like_time :
    (∀ s, dateTime s = utc s) ∧
    (∀ s t : ℕ, (utc s).date.year < 10000 → (utc t).date.year < 10000 →
      (formatUnixSecsUtc s < formatUnixSecsUtc t ↔ s < t)) ∧
    ∀ (since : ℤ) (secs millis : ℕ) (rest : Bytes), (utc since.toNat).date.year < 10000 →
      (utc secs).date.year < 10000 →
      (lineMatchesCutoff (formatUtcNow secs millis ++ rest) (formatUnixSecsUtc since) ↔
        since ≤ secs) := by
  refine ⟨dateTime_eq, fun s t hs ht => ?_, fun since secs millis rest hsince hsecs => ?_⟩
  · unfold formatUnixSecsUtc
    rw [dateTime_eq, dateTime_eq]
    exact format_lt_iff hs ht
  · unfold formatUtcNow formatUnixSecsUtc
    rw [dateTime_eq, dateTime_eq, append_assoc, append_assoc, cons_append,
      lineMatchesCutoff_stamped hsecs, decide_eq_true_iff]
    rw [← List.not_lt, format_lt_iff hsecs hsince]
    omega

theorem log_clock_sorts_like_time_leap_day :
    formatUnixSecsUtc 1709251199 = "2024-02-29T23:59:59".toList.map Char.toUInt8 ∧
      formatUnixSecsUtc 1709251200 = "2024-03-01T00:00:00".toList.map Char.toUInt8 ∧
      formatUnixSecsUtc 1709251199 < formatUnixSecsUtc 1709251200 ∧
      ¬lineMatchesCutoff (formatUtcNow 1709251199 999 ++ [32]) (formatUnixSecsUtc 1709251200) ∧
      lineMatchesCutoff (formatUtcNow 1709251200 0 ++ [32]) (formatUnixSecsUtc 1709251200) := by
  obtain ⟨hdates, hsorted, hfilter⟩ := log_clock_sorts_like_time
  have hleap : (utc 1709251199).date.year < 10000 := by
    rw [← hdates]
    decide
  have hmarch : (utc 1709251200).date.year < 10000 := by
    rw [← hdates]
    decide
  have hsince : (utc (1709251200 : ℤ).toNat).date.year < 10000 := by
    rw [← hdates]
    decide
  have hlt := (hsorted 1709251199 1709251200 hleap hmarch).mpr (by decide)
  rw [Nat.cast_ofNat, Nat.cast_ofNat] at hlt
  refine ⟨by decide, by decide, hlt, ?_, ?_⟩
  · rw [hfilter 1709251200 1709251199 999 [32] hsince hleap]
    decide
  · exact (hfilter 1709251200 1709251200 0 [32] hsince hmarch).mpr (by decide)

end Tako.Logs
