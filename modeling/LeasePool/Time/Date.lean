/-!
# Calendar dates

The proleptic Gregorian calendar with a year 0, counted in days from 1 January of that year.
-/

namespace LeasePool

/-- A calendar date. -/
structure Date where
  year : Int
  month : Nat
  day : Nat
  deriving DecidableEq, Repr

namespace Date

/-- Whether the year has a 29 February. -/
def isLeap (year : Int) : Bool :=
  year % 4 = 0 && (year % 100 ≠ 0 || year % 400 = 0)

/-- The number of days of a month. -/
def monthLength (year : Int) : (month : Nat) → Nat
  | 2 => if isLeap year then 29 else 28
  | 4 | 6 | 9 | 11 => 30
  | _ => 31

/-- The lengths of the twelve months of a year. -/
def monthLengths (year : Int) : List Nat :=
  [31, if isLeap year then 29 else 28, 31, 30, 31, 30, 31, 31, 30, 31, 30, 31]

/-- The number of days from the beginning of year 0 to the beginning of `year`. -/
def daysBeforeYear (year : Int) : Int :=
  365 * year + (year + 3) / 4 - (year + 99) / 100 + (year + 399) / 400

/-- Whether the date is in the calendar. -/
def isValid (d : Date) : Bool :=
  1 ≤ d.month && d.month ≤ 12 && 1 ≤ d.day && d.day ≤ monthLength d.year d.month

/-- The number of days from the beginning of year 0 to the date. -/
def dayNumber (d : Date) : Int :=
  daysBeforeYear d.year +
    (((monthLengths d.year).take (d.month - 1)).foldl Nat.add 0 + (d.day - 1) : Nat)

/-- The year to which a day belongs. The quotient by the mean length of a year is off by one at
most. -/
def yearOf (day : Int) : Int :=
  let year := day * 400 / 146097
  if day < daysBeforeYear year then year - 1
  else if daysBeforeYear (year + 1) ≤ day then year + 1
  else year

/-- The month, counted from `month` on, and the day of it, counted from 0, of a day that is
`day` days after the beginning of the first of the months with the given lengths. -/
def locate (month : Nat) : List Nat → (day : Nat) → Nat × Nat
  | [], day => (month, day)
  | length :: lengths, day =>
    if day < length then (month, day) else locate (month + 1) lengths (day - length)

/-- The date of a day. -/
def ofDayNumber (day : Int) : Date :=
  let year := yearOf day
  let (month, day) := locate 1 (monthLengths year) (day - daysBeforeYear year).toNat
  ⟨year, month, day + 1⟩

/-- Whether the date is the last of its month. -/
def isMonthEnd (d : Date) : Bool :=
  d.day = monthLength d.year d.month

end Date

end LeasePool
