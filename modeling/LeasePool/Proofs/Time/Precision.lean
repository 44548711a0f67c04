import LeasePool.Proofs.Lease.Codec
import LeasePool.Time.Clock
import Mathlib.Algebra.BigOperators.Group.List.Basic
import Mathlib.Algebra.Order.BigOperators.Group.List

/-!
# Clocks show what can be stored

A clock leaves out of the time of the system what is not written of it, so what it shows comes back
from the store as it is. The parts of a written time go from the greater to the smaller, each in as
many digits as the greatest of its values has, and so the order of texts is the order of times.
-/

namespace LeasePool

/-! ## The order of dates -/

namespace Date

variable {d e : Date}

/-- The date comes before another in the calendar. -/
def IsBefore (d e : Date) : Prop :=
  d.year < e.year ∨ d.year = e.year ∧ (d.month < e.month ∨ d.month = e.month ∧ d.day < e.day)

/-- Years begin in their order. -/
theorem daysBeforeYear_le {y z : Int} (h : y ≤ z) : daysBeforeYear y ≤ daysBeforeYear z := by
  unfold daysBeforeYear
  omega

/-- The days of a year before some month. -/
def daysBeforeMonth (year : Int) (month : Nat) : Nat := ((monthLengths year).take (month - 1)).sum

theorem dayNumber_eq : d.dayNumber =
    daysBeforeYear d.year + (daysBeforeMonth d.year d.month + (d.day - 1) : Nat) := by
  have sum : ((monthLengths d.year).take (d.month - 1)).foldl Nat.add 0 =
      daysBeforeMonth d.year d.month := List.sum_eq_foldl.symm
  rw [dayNumber, sum]

/-- A valid date lies in its month. -/
theorem bounds_of_isValid (valid : d.isValid = true) :
    1 ≤ d.month ∧ d.month ≤ 12 ∧ 1 ≤ d.day ∧ d.day ≤ monthLength d.year d.month := by
  simpa only [isValid, Bool.and_eq_true, decide_eq_true_eq, and_assoc] using valid

/-- A month is as long as it takes until the next one. -/
theorem daysBeforeMonth_succ (year : Int) {month : Nat} (first : 1 ≤ month) (last : month ≤ 12) :
    daysBeforeMonth year (month + 1) = daysBeforeMonth year month + monthLength year month := by
  obtain ⟨i, rfl⟩ := Nat.exists_eq_add_of_le' first
  have inside : i < (monthLengths year).length := last
  have length : (monthLengths year)[i] = monthLength year (i + 1) :=
    (monthLength_of_getElem? (List.getElem?_eq_getElem inside)).2.symm
  rw [daysBeforeMonth, daysBeforeMonth, Nat.add_sub_cancel, Nat.add_sub_cancel,
    List.sum_take_succ _ _ inside, length]

/-- Months begin in their order. -/
theorem daysBeforeMonth_le (year : Int) {m n : Nat} (h : m ≤ n) :
    daysBeforeMonth year m ≤ daysBeforeMonth year n := by
  have part : ((monthLengths year).take (m - 1)).Sublist ((monthLengths year).take (n - 1)) :=
    (List.take_prefix_take_left (Nat.sub_le_sub_right h 1)).sublist
  exact part.sum_le_sum fun _ _ => Nat.zero_le _

/-- A month ends within the year. -/
theorem daysBeforeMonth_le_year (year : Int) (month : Nat) :
    daysBeforeYear year + daysBeforeMonth year month ≤ daysBeforeYear (year + 1) := by
  have part : daysBeforeMonth year month ≤ (monthLengths year).sum :=
    (List.take_sublist _ _).sum_le_sum fun _ _ => Nat.zero_le _
  rw [daysBeforeYear_succ]
  omega

/-- An earlier date is that of an earlier day. -/
theorem dayNumber_lt_of_isBefore (hd : d.isValid = true) (he : e.isValid = true)
    (before : d.IsBefore e) : d.dayNumber < e.dayNumber := by
  obtain ⟨first, last, low, high⟩ := bounds_of_isValid hd
  obtain ⟨-, -, low', -⟩ := bounds_of_isValid he
  have month := daysBeforeMonth_succ d.year first last
  rw [dayNumber_eq, dayNumber_eq]
  rcases before with year | ⟨year, earlier | ⟨same, day⟩⟩
  · have ends := daysBeforeMonth_le_year d.year (d.month + 1)
    have years := daysBeforeYear_le (y := d.year + 1) (z := e.year) year
    omega
  · have months := daysBeforeMonth_le d.year (m := d.month + 1) (n := e.month) earlier
    rw [← year]
    omega
  · rw [← year, ← same]
    omega

/-- **Dates are in the order of their days.** -/
theorem dayNumber_lt_iff (hd : d.isValid = true) (he : e.isValid = true) :
    d.dayNumber < e.dayNumber ↔ d.IsBefore e := by
  constructor
  · intro less
    by_contra notBefore
    have other : e.IsBefore d ∨ d = e := by
      obtain ⟨_, _, _⟩ := d
      obtain ⟨_, _, _⟩ := e
      simp only [IsBefore, Date.mk.injEq] at notBefore ⊢
      omega
    rcases other with after | rfl
    · exact Int.lt_asymm less (dayNumber_lt_of_isBefore he hd after)
    · exact Int.lt_irrefl _ less
  · exact dayNumber_lt_of_isBefore hd he

end Date

/-! ## The order of written times -/

namespace Stamp

open Text

variable {date date' : Date} {hour minute second micros hour' minute' second' micros' : Nat}
  {s t : Stamp}

/-- **The texts of dates and times of the day are in their order.** -/
theorem written_lt_iff (valid : date.isValid = true) (valid' : date'.isValid = true)
    (early : 0 ≤ date.year) (early' : 0 ≤ date'.year) (late : date.year < 10000)
    (late' : date'.year < 10000) (minute_lt : minute < 60) (minute_lt' : minute' < 60)
    (second_lt : second < 60) (second_lt' : second' < 60) (hour_lt : hour < 24)
    (hour_lt' : hour' < 24) (micros_lt : micros < 10 ^ 6) (micros_lt' : micros' < 10 ^ 6) :
    written date hour minute second micros < written date' hour' minute' second' micros' ↔
      date.IsBefore date' ∨ date = date' ∧
        ((hour * 60 + minute) * 60 + second) * 10 ^ 6 + micros <
          ((hour' * 60 + minute') * 60 + second') * 10 ^ 6 + micros' := by
  obtain ⟨month, day⟩ := Date.day_lt_of_isValid valid
  obtain ⟨month', day'⟩ := Date.day_lt_of_isValid valid'
  have two : ∀ {m n : Nat} {x y : List Char}, m < 10 ^ 2 → n < 10 ^ 2 →
      (padded 2 m ++ x < padded 2 n ++ y ↔ m < n ∨ m = n ∧ x < y) :=
    padded_append_lt_iff (by decide)
  have same : ∀ {c : Char} {x y : List Char}, c :: x < c :: y ↔ x < y := by
    intro c x y
    simp
  simp only [written, List.append_assoc, List.cons_append]
  rw [padded_append_lt_iff (by decide) (by omega) (by omega), same, two month month', same,
    two day day', same, two (by omega) (by omega), same, two (by omega) (by omega), same,
    two (by omega) (by omega), same, padded_append_lt_iff (by decide) micros_lt micros_lt',
    lt_self_iff_false, and_false, or_false]
  obtain ⟨_, _, _⟩ := date
  obtain ⟨_, _, _⟩ := date'
  simp only [Date.IsBefore, Date.mk.injEq]
  simp only at early early'
  omega

/-- **Texts are in the order of the times**, less what is beyond the microsecond. -/
theorem instantText_lt_iff {t u : Instant} (ht : t.HasFourDigitYear) (hu : u.HasFourDigitYear) :
    instantText t < instantText u ↔ t.floorMicros < u.floorMicros := by
  obtain ⟨early, late⟩ := ht.year_date
  obtain ⟨early', late'⟩ := hu.year_date
  obtain ⟨number, valid⟩ : t.date.dayNumber = t.day ∧ t.date.isValid = true :=
    Date.dayNumber_ofDayNumber
  obtain ⟨number', valid'⟩ : u.date.dayNumber = u.day ∧ u.date.isValid = true :=
    Date.dayNumber_ofDayNumber
  have short : ∀ v : Instant, v.timeOfDay < 86400000000000 := by
    intro v
    simp only [Instant.timeOfDay, Instant.perDay]
    omega
  have time := short t
  have time' := short u
  have micros : ∀ n : Nat, ((n / 1000000000 / 3600 * 60 + n / 1000000000 / 60 % 60) * 60 +
      n / 1000000000 % 60) * 10 ^ 6 + n / 1000 % 1000000 = n / 1000 := by
    intro n
    omega
  have sameDate : t.date = u.date ↔ t.day = u.day := by
    constructor
    · intro same
      rw [← number, ← number', same]
    · intro same
      rw [Instant.date, Instant.date, same]
  rw [instantText_eq_written early, instantText_eq_written early',
    written_lt_iff valid valid' early early' late late' (by omega) (by omega) (by omega) (by omega)
      (by omega) (by omega) (by omega) (by omega),
    ← Date.dayNumber_lt_iff valid valid', number, number', micros, micros, sameDate]
  change _ ↔ t.nanoseconds / 1000 * 1000 < u.nanoseconds / 1000 * 1000
  simp only [Instant.day, Instant.timeOfDay, Instant.perDay]
  omega

/-- Texts are the same if the times are, less what is beyond the microsecond. -/
theorem instantText_eq_iff {t u : Instant} (ht : t.HasFourDigitYear) (hu : u.HasFourDigitYear) :
    instantText t = instantText u ↔ t.floorMicros = u.floorMicros := by
  constructor
  · intro same
    have read := parseChars?_instantText ht
    rw [same, parseChars?_instantText hu] at read
    exact (congrArg Stamp.instant (Option.some.inj read)).symm
  · intro same
    rw [← instantText_floorMicros, same, instantText_floorMicros]

/-! ## What clocks show -/

/-- **A clock leaves out what is past the microsecond**, in whatever calendar it shows the time, and
before 1970, too. -/
theorem truncated_eq (s : Stamp) : s.truncated = ⟨s.instant.floorMicros, s.offset⟩ := by
  have past : s.subsecond / 1000 < 1000000 := by
    simp only [subsecond]
    omega
  rw [truncated, atMicrosecond?, if_pos past, Option.getD_some]
  simp only [subsecond, wallClock, Instant.plus, Instant.timeOfDay, Instant.perDay,
    Instant.floorMicros, Stamp.mk.injEq, Instant.mk.injEq, and_true]
  omega

theorem ofSystem_eq (t : Instant) : Clock.ofSystem t = utc t.floorMicros :=
  truncated_eq (utc t)

/-- The text is that of the time, and tells what a clock shows at the time. -/
structure IsToldBy (s : Stamp) (x : String) : Prop where
  written : s.text? = some x
  /-- What is read is the time, less what is beyond the microsecond... -/
  read : parse? x = some (utc s.instant.floorMicros)
  /-- ... wherever a claim has a time... -/
  claimed : Claim.stamp? (.string x) = some (some (utc s.instant.floorMicros))
  /-- ... and that is what a clock shows. -/
  shown : Clock.ofSystem s.instant = utc s.instant.floorMicros
  /-- What a clock shows is written in the same way. -/
  rewritten : (Clock.ofSystem s.instant).text? = some x
  /-- It is of the same day... -/
  date : (Clock.ofSystem s.instant).instant.date = s.instant.date
  /-- ... and of the same microsecond of the day. -/
  timeOfDay : (Clock.ofSystem s.instant).instant.timeOfDay = s.instant.timeOfDay / 1000 * 1000
  /-- A clock that goes by another offset from UTC leaves out no more and no less. -/
  elsewhere : (Clock.startingAt s).time.wallClock = s.wallClock.floorMicros

/-- **What is written of a time tells what a clock shows.** -/
theorem HasFourDigitYear.isToldBy (H : s.HasFourDigitYear) :
    s.IsToldBy (String.ofList (instantText s.instant)) where
  written := H.text?_eq
  read := H.parse?_text
  claimed := Claim.stamp?_encode H
  shown := ofSystem_eq s.instant
  rewritten := by
    have text : s.stored.text? = _ := H.stored.text?_eq
    rw [ofSystem_eq, ← Stamp.stored, text, Stamp.stored, utc, instantText_floorMicros]
  date := by
    rw [ofSystem_eq]
    exact Instant.date_floorMicros
  timeOfDay := by
    rw [ofSystem_eq]
    exact Instant.timeOfDay_floorMicros
  elsewhere := by
    rw [Clock.startingAt, truncated_eq]
    simp only [wallClock, Instant.plus, Instant.floorMicros, Instant.mk.injEq]
    omega

/-- **What is written of two times tells what clocks show**, and which of them shows the later
time: texts are in the order of the times. -/
theorem exists_isToldBy (hs : s.HasFourDigitYear) (ht : t.HasFourDigitYear) :
    ∃ x y, s.IsToldBy x ∧ t.IsToldBy y ∧
      (x < y ↔ s.instant.floorMicros < t.instant.floorMicros) ∧
      (x = y ↔ s.instant.floorMicros = t.instant.floorMicros) := by
  refine ⟨_, _, hs.isToldBy, ht.isToldBy, ?_, ?_⟩
  · rw [String.lt_iff_toList_lt, String.toList_ofList, String.toList_ofList]
    exact instantText_lt_iff hs ht
  · rw [String.ofList_inj]
    exact instantText_eq_iff hs ht

/-- The last nanosecond before 1970, and the first one of that year on a clock two hours ahead. -/
theorem exists_isToldBy_epoch : ∃ x y,
    IsToldBy ⟨⟨-1⟩, 0⟩ x ∧ IsToldBy ⟨⟨0⟩, 120⟩ y ∧
      (x < y ↔ (⟨-1⟩ : Instant).floorMicros < (⟨0⟩ : Instant).floorMicros) ∧
      (x = y ↔ (⟨-1⟩ : Instant).floorMicros = (⟨0⟩ : Instant).floorMicros) :=
  exists_isToldBy ⟨by decide, by decide⟩ ⟨by decide, by decide⟩

end Stamp

end LeasePool
