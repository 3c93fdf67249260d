import Mathlib.Algebra.GroupWithZero.Nat
import Mathlib.Algebra.Ring.Int.Defs

/-!
# Calendar dates

`chrono::NaiveDate`: the proleptic Gregorian calendar, the ISO-8601 text of a date and the number of
days since the Unix epoch.
-/

namespace RQuery

namespace Calendar

def isLeapYear (year : ℤ) : Bool :=
  year % 4 = 0 && (year % 100 ≠ 0 || year % 400 = 0)

def daysInMonth (year : ℤ) (month : ℕ) : ℕ :=
  match month with
  | 2 => if isLeapYear year then 29 else 28
  | 4 | 6 | 9 | 11 => 30
  | _ => 31

/-- The days from the first day of year 1 to the first day of `year`. -/
def daysBeforeYear (year : ℤ) : ℤ :=
  let p := year - 1
  365 * p + p.fdiv 4 - p.fdiv 100 + p.fdiv 400

/-- The year of a day, counted from the first day of year 1. The years of a cycle of 400 have
365.2425 days on average, which finds the year or one next to it. -/
def yearOfDay (n : ℤ) : ℤ :=
  let year := (400 * (n - 1)).fdiv 146097 + 1
  if n ≤ daysBeforeYear year then year - 1
  else if daysBeforeYear (year + 1) < n then year + 1
  else year

/-- The month of a day and the day in the month, for day `day` from the start of `month` on. -/
def monthDay (year : ℤ) : ℕ → ℕ → ℕ → ℕ × ℕ
  | 0, month, day => (month, day)
  | months + 1, month, day =>
    if day ≤ daysInMonth year month then (month, day)
    else monthDay year months (month + 1) (day - daysInMonth year month)

/-- The days before a year in closed form: 365 for each year and one more for each leap year. -/
theorem daysBeforeYear_eq (year : ℤ) :
    daysBeforeYear year =
      365 * (year - 1) + (year - 1) / 4 - (year - 1) / 100 + (year - 1) / 400 := by
  rw [daysBeforeYear, Int.fdiv_eq_ediv_of_nonneg _ (by decide),
    Int.fdiv_eq_ediv_of_nonneg _ (by decide), Int.fdiv_eq_ediv_of_nonneg _ (by decide)]

/-- A year adds its own length. -/
theorem daysBeforeYear_succ (year : ℤ) :
    daysBeforeYear (year + 1) = daysBeforeYear year + if isLeapYear year then 366 else 365 := by
  simp only [daysBeforeYear_eq, isLeapYear, Bool.and_eq_true, Bool.or_eq_true, decide_eq_true_eq]
  omega

/-- The first day of a year is less than two days off the average. -/
theorem daysBeforeYear_bounds (year : ℤ) :
    146097 * (year - 1) - 800 < 400 * daysBeforeYear year ∧
      400 * daysBeforeYear year < 146097 * (year - 1) + 800 := by
  rw [daysBeforeYear_eq]
  omega

/-- The year of a day is the one whose days the day falls among. -/
theorem yearOfDay_eq {n year : ℤ} (hlt : daysBeforeYear year < n)
    (hle : n ≤ daysBeforeYear (year + 1)) : yearOfDay n = year := by
  have hlower := (daysBeforeYear_bounds year).1
  have hupper := (daysBeforeYear_bounds (year + 1)).2
  have hsucc := daysBeforeYear_succ year
  have hpred := daysBeforeYear_succ (year - 1)
  rw [Int.sub_add_cancel] at hpred
  rw [yearOfDay, Int.fdiv_eq_ediv_of_nonneg _ (by decide)]
  have hnear : 400 * (n - 1) / 146097 + 1 = year - 1 ∨ 400 * (n - 1) / 146097 + 1 = year ∨
      400 * (n - 1) / 146097 + 1 = year + 1 := by omega
  rcases hnear with h | h | h
  · rw [h, Int.sub_add_cancel, if_neg, if_pos hlt]
    split at hpred <;> omega
  · rw [h, if_neg (by omega), if_neg (by omega)]
  · rw [h, if_pos hle, Int.add_sub_cancel]

/-- Walking the months from the first one on finds the month and the day that a day of the year was
counted from. -/
theorem monthDay_sum {year : ℤ} {months month day j : ℕ} (hj : j ≤ months) (hday : 1 ≤ day)
    (hle : day ≤ daysInMonth year (month + j)) :
    monthDay year months month
      (((List.range j).map fun i => daysInMonth year (month + i)).sum + day) = (month + j, day) := by
  induction j generalizing months month with
  | zero =>
    rw [List.range_zero, List.map_nil, List.sum_nil, Nat.zero_add]
    obtain _ | months := months
    · rfl
    · exact if_pos hle
  | succ j ih =>
    obtain _ | months := months
    · omega
    · have hshift : ∀ i, month + (i + 1) = month + 1 + i := fun i => by omega
      have htail : (fun i => daysInMonth year (month + i)) ∘ Nat.succ =
          fun i => daysInMonth year (month + 1 + i) := funext fun i => congrArg _ (hshift i)
      rw [hshift] at hle ⊢
      rw [List.range_succ_eq_map, List.map_cons, List.map_map, List.sum_cons, Nat.add_zero month,
        htail, monthDay, if_neg (by omega), Nat.add_assoc, Nat.add_sub_cancel_left]
      exact ih (by omega) hle

end Calendar

open Calendar in
/-- A date that exists. -/
structure NaiveDate where
  year : ℤ
  month : ℕ
  day : ℕ
  valid : 1 ≤ month ∧ month ≤ 12 ∧ 1 ≤ day ∧ day ≤ daysInMonth year month
  deriving DecidableEq

namespace NaiveDate

open Calendar

/-- The day's number within its year, from 1. -/
def ordinal (d : NaiveDate) : ℕ :=
  ((List.range (d.month - 1)).map fun m => daysInMonth d.year (m + 1)).sum + d.day

/-- `days_since_unix_epoch`; 1970-01-01 is day 719163 of the calendar. -/
def daysSinceUnixEpoch (d : NaiveDate) : Int32 :=
  Int32.ofInt (daysBeforeYear d.year + d.ordinal - 719163)

/-- `chrono` has dates from the year -262143 to the year 262142. -/
def Representable (d : NaiveDate) : Prop := -262143 ≤ d.year ∧ d.year ≤ 262142

instance (d : NaiveDate) : Decidable d.Representable := inferInstanceAs (Decidable (_ ∧ _))

/-- The Unix epoch plus `Duration::days`. It panics past the last date. -/
def ofDaysSinceUnixEpoch (days : Int32) : Option NaiveDate :=
  let n := days.toInt + 719163
  let year := yearOfDay n
  let md := monthDay year 12 1 (n - daysBeforeYear year).toNat
  if h : 1 ≤ md.1 ∧ md.1 ≤ 12 ∧ 1 ≤ md.2 ∧ md.2 ≤ daysInMonth year md.1 then
    some (⟨year, md.1, md.2, h⟩ : NaiveDate) |>.filter fun d => d.Representable
  else none

/-- A date's day of the year is at least 1 and at most the length of its year. -/
theorem ordinal_bounds (d : NaiveDate) :
    1 ≤ d.ordinal ∧ d.ordinal ≤ if isLeapYear d.year then 366 else 365 := by
  obtain ⟨year, month, day, hmonth, hmonth', hday, hday'⟩ := d
  refine ⟨Nat.le_add_left_of_le hday, ?_⟩
  have hcases : month = 1 ∨ month = 2 ∨ month = 3 ∨ month = 4 ∨ month = 5 ∨ month = 6 ∨ month = 7 ∨
      month = 8 ∨ month = 9 ∨ month = 10 ∨ month = 11 ∨ month = 12 := by omega
  rcases hcases with rfl | rfl | rfl | rfl | rfl | rfl | rfl | rfl | rfl | rfl | rfl | rfl <;>
    simp only [ordinal, daysInMonth, List.range_succ, List.range_zero, List.map_append, List.map_cons,
      List.map_nil, List.sum_append, List.sum_cons, List.sum_nil, Nat.add_one_sub_one] at hday' ⊢ <;>
    split <;> simp_all <;> omega

/-- The days that are counted from the epoch lead back to the date. -/
theorem ofDays_daysSinceUnixEpoch {d : NaiveDate} (h : d.Representable) :
    ofDaysSinceUnixEpoch d.daysSinceUnixEpoch = some d := by
  have hordinal := d.ordinal_bounds
  have hsucc := daysBeforeYear_succ d.year
  have hbounds := daysBeforeYear_bounds d.year
  have hdays : d.daysSinceUnixEpoch.toInt + 719163 = daysBeforeYear d.year + d.ordinal := by
    obtain ⟨hlow, hhigh⟩ := h
    rw [daysSinceUnixEpoch, Int32.toInt_ofInt_of_le (by omega) (by split at hordinal <;> omega)]
    omega
  have hyear : yearOfDay (daysBeforeYear d.year + d.ordinal) = d.year :=
    yearOfDay_eq (by omega) (by split at hordinal <;> simp_all only [if_true] <;> omega)
  have hmonth : monthDay d.year 12 1 d.ordinal = (d.month, d.day) := by
    obtain ⟨year, month, day, hm, hm', hd, hd'⟩ := d
    have hle : day ≤ daysInMonth year (1 + (month - 1)) := by rwa [Nat.add_sub_cancel' hm]
    have hmonths : month - 1 ≤ 12 := by omega
    have hsum := monthDay_sum hmonths hd hle
    rw [Nat.add_sub_cancel' hm] at hsum
    simpa only [ordinal, Nat.add_comm 1] using hsum
  have hrest : (daysBeforeYear d.year + d.ordinal - daysBeforeYear d.year).toNat = d.ordinal := by
    omega
  unfold ofDaysSinceUnixEpoch
  simp only [hdays, hyear, hrest, hmonth]
  rw [dif_pos d.valid]
  exact Option.filter_eq_some_iff.mpr ⟨rfl, decide_eq_true h⟩

/-- A date read from a day number is one the date type represents. -/
theorem representable_of_ofDays {days : Int32} {d : NaiveDate}
    (h : ofDaysSinceUnixEpoch days = some d) : d.Representable := by
  unfold ofDaysSinceUnixEpoch at h
  dsimp only at h
  split at h
  · exact of_decide_eq_true (Option.filter_eq_some_iff.mp h).2
  · cases h

example : daysSinceUnixEpoch ⟨2000, 3, 1, by decide⟩ = 11017 := by decide

private def padded (width : ℕ) (n : ℕ) : String :=
  let digits := toString n
  String.ofList (List.replicate (width - digits.length) '0') ++ digits

/-- `NaiveDate`'s `Display`: ISO-8601, with a sign outside of the years 0 to 9999. -/
def display (d : NaiveDate) : String :=
  let year :=
    if 0 ≤ d.year && d.year ≤ 9999 then padded 4 d.year.toNat
    else (if d.year < 0 then "-" else "+") ++ padded 4 d.year.natAbs
  year ++ "-" ++ padded 2 d.month ++ "-" ++ padded 2 d.day

end NaiveDate

end RQuery
