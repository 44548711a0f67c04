import LeasePool.Time.Date
import LeasePool.Time.Span

/-!
# Instants

Points in time, counted in nanoseconds from the beginning of 1970 in UTC. Clocks and stored
times keep to the years -9999 to 9999; an operation that would leave them has no result.
-/

namespace LeasePool

/-- A point in time. -/
structure Instant where
  nanoseconds : Int
  deriving DecidableEq, Repr, Inhabited

namespace Instant

instance : LT Instant := ⟨fun a b => a.nanoseconds < b.nanoseconds⟩
instance : LE Instant := ⟨fun a b => a.nanoseconds ≤ b.nanoseconds⟩
instance (a b : Instant) : Decidable (a < b) :=
  inferInstanceAs (Decidable (a.nanoseconds < b.nanoseconds))
instance (a b : Instant) : Decidable (a ≤ b) :=
  inferInstanceAs (Decidable (a.nanoseconds ≤ b.nanoseconds))

/-- The nanoseconds of a day. -/
def perDay : Int := 86400000000000

/-- The number of days from the beginning of year 0 to the beginning of 1970. -/
def epochDay : Int := 719528

/-- The instant of a day and the nanoseconds since its beginning. -/
def ofDay (day nanoseconds : Int) : Instant :=
  ⟨(day - epochDay) * perDay + nanoseconds⟩

/-- The day of an instant, counted from the beginning of year 0. -/
def day (t : Instant) : Int := t.nanoseconds / perDay + epochDay

/-- The nanoseconds since the beginning of the day. -/
def timeOfDay (t : Instant) : Nat := (t.nanoseconds % perDay).toNat

/-- The date of an instant. -/
def date (t : Instant) : Date := Date.ofDayNumber t.day

/-- The first instant of a year. -/
def ofYear (year : Int) : Instant := ofDay (Date.daysBeforeYear year) 0

/-- Whether the instant lies in the years -9999 to 9999. -/
def inRange (t : Instant) : Bool :=
  ofYear (-9999) ≤ t && t < ofYear 10000

/-- The instant `n` nanoseconds later. -/
def plus (t : Instant) (n : Int) : Instant := ⟨t.nanoseconds + n⟩

/-- The last whole microsecond that is not after the instant. -/
def floorMicros (t : Instant) : Instant := ⟨t.nanoseconds / 1000 * 1000⟩

end Instant

end LeasePool
