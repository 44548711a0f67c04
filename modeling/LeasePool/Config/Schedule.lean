import LeasePool.Config.Error
import LeasePool.Text.Blank
import LeasePool.Text.Decimal
import LeasePool.Time.Span

/-!
# Schedules

When a controller runs: after an initial delay, and then at an interval. Both are text in the
configuration. A span is a number with one of the units `ms`, `s`, `m` and `h`, seconds if there
is none; a delay is a number of seconds, or `random`.
-/

namespace LeasePool

/-- The bound of numbers in the texts of spans and delays. -/
def wordBound : Nat := Nat.pow 2 64

/-- A unit of the texts of spans. -/
inductive SpanUnit where
  | milliseconds
  | seconds
  | minutes
  | hours
  deriving DecidableEq, Repr

/-- The milliseconds of a unit. -/
def SpanUnit.millis : SpanUnit → Nat
  | .milliseconds => 1
  | .seconds => 1000
  | .minutes => 60000
  | .hours => 3600000

/-- The text before its unit, which is looked for at its end, and the unit. Of `ms` and `s` the
longer one is meant. -/
def splitUnit (s : List Char) : List Char × SpanUnit :=
  match s.reverse with
  | 's' :: 'm' :: rest => (rest.reverse, .milliseconds)
  | 's' :: rest => (rest.reverse, .seconds)
  | 'm' :: rest => (rest.reverse, .minutes)
  | 'h' :: rest => (rest.reverse, .hours)
  | _ => (s, .seconds)

/-- The span that a text stands for. It is at least one millisecond, and its milliseconds fit
into 64 bits. -/
def parseSpan (text : String) : Except ConfigError Span :=
  let text := Text.trim text
  if text = "" then .error .emptySpan
  else
    let (number, unit) := splitUnit (text.toList.map Char.toLower)
    match Text.natural? wordBound (Text.trimChars number) with
    | none => .error (.malformedSpan text)
    | some n =>
      let millis := n * unit.millis
      if wordBound ≤ millis then .error (.excessiveSpan text)
      else if millis = 0 then .error (.zeroSpan text)
      else .ok (.ofMillis millis)

/-- How long a controller waits before its first cycle. -/
inductive InitialDelay where
  /-- A whole number of seconds, drawn when the controller starts. -/
  | random
  | fixed (delay : Span)
  deriving DecidableEq, Repr

namespace InitialDelay

/-- The least and the greatest number of seconds that a random delay has. -/
def window : Nat × Nat := (5, 10)

/-- The delay that a text stands for: `random` in any case, or a number of seconds. -/
def parse (text : String) : Except ConfigError InitialDelay :=
  let text := Text.trim text
  if text.toList.map Char.toLower = "random".toList then .ok .random
  else match Text.natural? wordBound text.toList with
    | some n => .ok (.fixed (.ofSeconds n))
    | none => .error (.malformedDelay text)

/-- The delay, where `draw` decides about a random one. -/
def resolve (draw : Nat) : InitialDelay → Span
  | random => .ofSeconds (window.1 + draw % (window.2 - window.1 + 1))
  | fixed delay => delay

end InitialDelay

/-- When a controller runs. -/
structure Schedule where
  interval : Span
  delay : InitialDelay
  deriving DecidableEq, Repr

end LeasePool
