import Mathlib.Tactic.IntervalCases
import LeasePool.Time.Instant

/-!
# Days have dates

Days are counted from the beginning of year 0, and each of them has a date. To look a date up is
to find the year by a quotient that is off by one at most, and then to go through the months of
that year.
-/

namespace LeasePool

namespace Date

/-- A year is as long as its months. -/
theorem daysBeforeYear_succ {year : Int} :
    daysBeforeYear (year + 1) = daysBeforeYear year + (monthLengths year).sum := by
  simp only [monthLengths, isLeap, daysBeforeYear, Bool.and_eq_true, Bool.or_eq_true,
    decide_eq_true_eq, List.sum_cons, List.sum_nil]
  split <;> omega

/-- **A day lies in its year.** -/
theorem mem_yearOf (day : Int) :
    daysBeforeYear (yearOf day) ≤ day ∧ day < daysBeforeYear (yearOf day + 1) := by
  -- The quotient is the year, the year before or the year after.
  have low : daysBeforeYear (day * 400 / 146097 - 1) ≤ day := by
    unfold daysBeforeYear
    omega
  have high : day < daysBeforeYear (day * 400 / 146097 + 1 + 1) := by
    unfold daysBeforeYear
    omega
  unfold yearOf
  simp only
  split
  · rename_i early
    rw [Int.sub_add_cancel]
    exact ⟨low, early⟩
  · split
    · rename_i late
      exact ⟨late, high⟩
    · omega

/-- A day that lies in some months lies in one of them. -/
theorem locate_eq {lengths : List Nat} {day : Nat} (month : Nat) (inside : day < lengths.sum) :
    ∃ i n, lengths[i]? = some n ∧ ∃ rest < n,
      locate month lengths day = (month + i, rest) ∧ (lengths.take i).sum + rest = day := by
  induction lengths generalizing month day with
  | nil => simp at inside
  | cons length lengths ih =>
    by_cases first : day < length
    · exact ⟨0, length, rfl, day, first, by simp [locate, first], by simp⟩
    · have inside : day - length < lengths.sum := by
        rw [List.sum_cons] at inside
        omega
      obtain ⟨i, n, here, rest, small, found, total⟩ := ih (month + 1) inside
      refine ⟨i + 1, n, by simpa using here, rest, small, ?_, ?_⟩
      · rw [locate, if_neg first, found, Nat.add_right_comm, Nat.add_assoc]
      · rw [List.take_succ_cons, List.sum_cons]
        omega

/-- The lengths of the months, in their order. -/
theorem monthLength_of_getElem? {year : Int} {i n : Nat} (h : (monthLengths year)[i]? = some n) :
    i < 12 ∧ monthLength year (i + 1) = n := by
  have small : i < 12 := (List.getElem?_eq_some_iff.1 h).1
  refine ⟨small, ?_⟩
  rw [monthLengths] at h
  interval_cases i <;> exact Option.some.inj h

/-- **The date of a day** is in the calendar, and it is that day's. -/
theorem dayNumber_ofDayNumber {day : Int} :
    (ofDayNumber day).dayNumber = day ∧ (ofDayNumber day).isValid = true := by
  obtain ⟨low, high⟩ := mem_yearOf day
  rw [daysBeforeYear_succ] at high
  have inside : (day - daysBeforeYear (yearOf day)).toNat < (monthLengths (yearOf day)).sum := by
    omega
  obtain ⟨i, n, here, rest, small, found, total⟩ := locate_eq 1 inside
  obtain ⟨month, length⟩ := monthLength_of_getElem? here
  have date : ofDayNumber day = ⟨yearOf day, 1 + i, rest + 1⟩ := by
    simp only [ofDayNumber, found]
  rw [date]
  constructor
  · have sum : ((monthLengths (yearOf day)).take i).foldl Nat.add 0 =
        ((monthLengths (yearOf day)).take i).sum := List.sum_eq_foldl.symm
    simp only [dayNumber, Nat.add_sub_cancel_left, Nat.add_sub_cancel, sum, total]
    omega
  · rw [Nat.add_comm i 1] at length
    simp only [isValid, length, Bool.and_eq_true, decide_eq_true_eq]
    omega

/-- A day of the month has two digits. -/
theorem day_lt_of_isValid {d : Date} (valid : d.isValid = true) :
    d.month < 10 ^ 2 ∧ d.day < 10 ^ 2 := by
  obtain ⟨⟨⟨-, month⟩, -⟩, day⟩ : ((1 ≤ d.month ∧ d.month ≤ 12) ∧ 1 ≤ d.day) ∧
      d.day ≤ monthLength d.year d.month := by
    simpa only [isValid, Bool.and_eq_true, decide_eq_true_eq] using valid
  refine ⟨by omega, Nat.lt_of_le_of_lt day ?_⟩
  unfold monthLength
  split
  · split <;> decide
  · decide
  · decide
  · decide
  · decide
  · decide

end Date

namespace Instant

/-- In UTC, the instant is in one of the years 0 to 9999. -/
def HasFourDigitYear (t : Instant) : Prop := ofYear 0 ≤ t ∧ t < ofYear 10000

/-- The year of such an instant has four digits. -/
theorem HasFourDigitYear.year_date {t : Instant} (H : t.HasFourDigitYear) :
    0 ≤ t.date.year ∧ t.date.year < 10000 := by
  obtain ⟨early, late⟩ := H
  have early : (ofYear 0).nanoseconds ≤ t.nanoseconds := early
  have late : t.nanoseconds < (ofYear 10000).nanoseconds := late
  simp only [ofYear, ofDay, Date.daysBeforeYear, epochDay, perDay] at early late
  have first : 0 ≤ t.day := by
    simp only [day, perDay, epochDay]
    omega
  have last : t.day < Date.daysBeforeYear 10000 := by
    simp only [day, perDay, epochDay, Date.daysBeforeYear]
    omega
  obtain ⟨begins, ends⟩ := Date.mem_yearOf t.day
  have year : t.date.year = Date.yearOf t.day := rfl
  rw [year]
  simp only [Date.daysBeforeYear] at begins ends last
  omega

/-- There is nothing else to such an instant than to any date of the calendar. -/
theorem HasFourDigitYear.inRange {t : Instant} (H : t.HasFourDigitYear) : t.inRange = true := by
  obtain ⟨early, late⟩ := H
  have early : (ofYear 0).nanoseconds ≤ t.nanoseconds := early
  rw [Instant.inRange, Bool.and_eq_true, decide_eq_true_eq, decide_eq_true_eq]
  refine ⟨?_, late⟩
  change (ofYear (-9999)).nanoseconds ≤ t.nanoseconds
  simp only [ofYear, ofDay, Date.daysBeforeYear, epochDay, perDay] at early ⊢
  omega

/-- The whole microseconds of an instant are of the same day. -/
theorem day_floorMicros {t : Instant} : t.floorMicros.day = t.day := by
  simp only [day, floorMicros, perDay]
  omega

/-- The whole microseconds of an instant are those of the day. -/
theorem timeOfDay_floorMicros {t : Instant} :
    t.floorMicros.timeOfDay = t.timeOfDay / 1000 * 1000 := by
  simp only [timeOfDay, floorMicros, perDay]
  omega

theorem date_floorMicros {t : Instant} : t.floorMicros.date = t.date := by
  rw [date, date, day_floorMicros]

/-- The whole microseconds of an instant are in the same year. -/
theorem HasFourDigitYear.floorMicros {t : Instant} (H : t.HasFourDigitYear) :
    t.floorMicros.HasFourDigitYear := by
  obtain ⟨early, late⟩ := H
  have early : (ofYear 0).nanoseconds ≤ t.nanoseconds := early
  have late : t.nanoseconds < (ofYear 10000).nanoseconds := late
  simp only [ofYear, ofDay, Date.daysBeforeYear, epochDay, perDay] at early late
  constructor
  · change (ofYear 0).nanoseconds ≤ t.nanoseconds / 1000 * 1000
    simp only [ofYear, ofDay, Date.daysBeforeYear, epochDay, perDay]
    omega
  · change t.nanoseconds / 1000 * 1000 < (ofYear 10000).nanoseconds
    simp only [ofYear, ofDay, Date.daysBeforeYear, epochDay, perDay]
    omega

end Instant

end LeasePool
