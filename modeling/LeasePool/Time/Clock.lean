import LeasePool.Time.Stamp

/-!
# Clocks

Times that participants write into leases have whole microseconds, because that is what the
store keeps of them. A clock is either that of the system or one that stands still until it is
moved.
-/

namespace LeasePool

namespace Stamp

/-- The nanoseconds that a time is past its second. -/
def subsecond (s : Stamp) : Nat := s.wallClock.timeOfDay % 1000000000

/-- The time at some microsecond of its second. -/
def atMicrosecond? (s : Stamp) (micros : Nat) : Option Stamp :=
  if micros < 1000000 then
    some { s with instant := s.instant.plus ((micros * 1000 : Nat) - (s.subsecond : Int)) }
  else none

/-- The time at its own microsecond, without what it is past that. -/
def truncated (s : Stamp) : Stamp := (s.atMicrosecond? (s.subsecond / 1000)).getD s

end Stamp

/-- A clock that stands still until it is moved. -/
structure Clock where
  time : Stamp
  deriving DecidableEq, Repr

namespace Clock

/-- What the clock of the system shows: the whole microseconds of the time, in UTC. -/
def ofSystem (t : Instant) : Stamp := (Stamp.utc t).truncated

/-- A clock that begins at the whole microseconds of a time. -/
def startingAt (time : Stamp) : Clock := ⟨time.truncated⟩

/-- What the clock shows. -/
def now (c : Clock) : Instant := c.time.instant

/-- The clock moved on, unless its calendar has no such date, or the span has more whole seconds
than 63 bits hold. Spans below a microsecond count, too. -/
def advance? (c : Clock) (span : Span) : Option Clock :=
  let later : Stamp := ⟨c.time.instant.plus span.nanoseconds, c.time.offset⟩
  if span.seconds < Nat.pow 2 63 ∧ later.wallClock.inRange then some ⟨later⟩ else none

end Clock

end LeasePool
