import LeasePool.Text.Scan
import LeasePool.Time.Instant

/-!
# Written times

Times as they stand in stored objects. They are read as RFC 3339 has them, with any offset from
UTC, and written in UTC with six digits of the second, as `YYYY-MM-DDTHH:MM:SS.ffffffZ`. A time
keeps the offset it was read with: its date in the writer's own calendar is what has to stay in
the range of dates when something is added to it.

## Main definitions

* `Stamp`: an instant and the offset it was written with.
* `Stamp.parse?`: RFC 3339.
* `Stamp.plusSeconds?`: a later time, within the range of dates.
* `Stamp.text?`: the written form.
-/

namespace LeasePool

/-- A time as somebody wrote it. -/
structure Stamp where
  instant : Instant
  /-- Minutes by which the writer's clock was ahead of UTC. -/
  offset : Int
  deriving DecidableEq, Repr, Inhabited

namespace Stamp

/-- A time written in UTC. -/
def utc (t : Instant) : Stamp := ⟨t, 0⟩

/-- What the writer's own clock shows, as if it were UTC. -/
def wallClock (s : Stamp) : Instant := s.instant.plus (s.offset * 60000000000)

/-- The time some seconds later, unless the writer's calendar has no such date. -/
def plusSeconds? (s : Stamp) (seconds : Int) : Option Stamp :=
  let later : Stamp := ⟨s.instant.plus (seconds * 1000000000), s.offset⟩
  if later.wallClock.inRange then some later else none

/-- The time floored to whole microseconds and in UTC, as it comes back from the store. -/
def stored (s : Stamp) : Stamp := utc s.instant.floorMicros

/-! ## Writing -/

/-- A year in at least four digits, with a minus sign before year 0. -/
def yearText (year : Int) : List Char :=
  (if year < 0 then ['-'] else []) ++ Text.padded 4 year.natAbs

/-- The written form of an instant, whole microseconds only. -/
def instantText (t : Instant) : List Char :=
  let date := t.date
  let seconds := t.timeOfDay / 1000000000
  yearText date.year ++ '-' :: Text.padded 2 date.month ++ '-' :: Text.padded 2 date.day
    ++ 'T' :: Text.padded 2 (seconds / 3600) ++ ':' :: Text.padded 2 (seconds / 60 % 60)
    ++ ':' :: Text.padded 2 (seconds % 60)
    ++ '.' :: Text.padded 6 (t.timeOfDay / 1000 % 1000000) ++ ['Z']

/-- The written form of a time, unless UTC has no such date. -/
def text? (s : Stamp) : Option String :=
  if s.instant.inRange then some (String.ofList (instantText s.instant)) else none

/-! ## Reading -/

/-- A number of exactly `width` digits, and what follows it. -/
def number? (width : Nat) (s : List Char) : Option (Nat × List Char) :=
  if (s.take width).length = width then
    (Text.digits? (s.take width)).map fun n => (n, s.drop width)
  else none

/-- The nanoseconds of a fraction of a second, if one follows: a point and digits, those after
the ninth without weight. -/
def fraction? : List Char → Option (Nat × List Char)
  | '.' :: s =>
    match s.takeWhile Char.isDigit with
    | [] => none
    | ds =>
      let nine := (ds ++ List.replicate 9 '0').take 9
      some (Nat.ofDigitChars 10 nine 0, s.dropWhile Char.isDigit)
  | s => some (0, s)

/-- The offset from UTC in minutes: `Z` in either case, or a sign, hours and minutes. -/
def offset? : List Char → Option (Int × List Char)
  | 'Z' :: s | 'z' :: s => some (0, s)
  | sign :: s => do
    let (hours, s) ← number? 2 s
    let s ← Text.after? ':' s
    let (minutes, s) ← number? 2 s
    if 23 < hours ∨ 59 < minutes then none
    else
      let size : Int := hours * 60 + minutes
      if sign = '+' then some (size, s) else if sign = '-' then some (-size, s) else none
  | [] => none

/-- The time of an RFC 3339 text. Any one-byte character may stand between date and time. A
sixtieth second is taken for the end of the fifty-ninth, and only at the end of a month in
UTC. -/
def parseChars? (s : List Char) : Option Stamp := do
  let (year, s) ← number? 4 s
  let s ← Text.after? '-' s
  let (month, s) ← number? 2 s
  let s ← Text.after? '-' s
  let (day, s) ← number? 2 s
  let s ← match s with
    | c :: s => if c.toNat < 0x80 then some s else none
    | [] => none
  let (hour, s) ← number? 2 s
  let s ← Text.after? ':' s
  let (minute, s) ← number? 2 s
  let s ← Text.after? ':' s
  let (second, s) ← number? 2 s
  let (nanos, s) ← fraction? s
  let (offset, s) ← offset? s
  let date : Date := ⟨year, month, day⟩
  let leap := second = 60
  let second := if leap then 59 else second
  let nanos := if leap then 999999999 else nanos
  if s ≠ [] ∨ !date.isValid ∨ 23 < hour ∨ 59 < minute ∨ 59 < second then none
  else
    let seconds : Int := hour * 3600 + minute * 60 + second
    let wall := Instant.ofDay date.dayNumber (seconds * 1000000000 + nanos)
    let instant := wall.plus (-offset * 60000000000)
    if leap ∧ !(instant.inRange ∧ instant.timeOfDay = 86399999999999 ∧ instant.date.isMonthEnd)
    then none
    else some ⟨instant, offset⟩

/-- The time of an RFC 3339 text. -/
def parse? (s : String) : Option Stamp := parseChars? s.toList

end Stamp

end LeasePool
