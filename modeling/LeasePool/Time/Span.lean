import LeasePool.Text.Decimal

/-!
# Spans of time

Lengths of time in whole nanoseconds, and the two texts that a span has in this library: the
configuration writes spans as a number with a unit (`LeasePool.Config.Span`), and messages show
them as `Span.text` does, in the greatest unit of which there is at least one, exactly.
-/

namespace LeasePool

/-- A length of time. -/
structure Span where
  nanoseconds : Nat
  deriving DecidableEq, Repr, Inhabited

namespace Span

/-- A span of whole seconds. -/
def ofSeconds (n : Nat) : Span := ⟨n * 1000000000⟩

/-- A span of whole milliseconds. -/
def ofMillis (n : Nat) : Span := ⟨n * 1000000⟩

/-- The whole seconds of a span. -/
def seconds (s : Span) : Nat := s.nanoseconds / 1000000000

/-- The nanoseconds beyond the whole seconds of a span. -/
def subsecond (s : Span) : Nat := s.nanoseconds % 1000000000

/-- The least whole number of milliseconds that is no shorter than the span. -/
def ceilMillis (s : Span) : Nat := (s.nanoseconds + 999999) / 1000000

/-- A number in units of `10 ^ places` nanoseconds: the whole part, and after a point the
fraction without trailing zeros, if there is one. -/
def inUnits (places nanoseconds : Nat) : List Char :=
  let whole := Text.decimal (nanoseconds / Nat.pow 10 places)
  let fraction := Text.padded places (nanoseconds % Nat.pow 10 places)
  let kept := (fraction.reverse.dropWhile (· = '0')).reverse
  if places = 0 ∨ kept = [] then whole else whole ++ '.' :: kept

/-- The text of a span in messages, such as `1.5s`, `250ms`, `123.456µs` or `0ns`. -/
def text (s : Span) : String :=
  let n := s.nanoseconds
  String.ofList <|
    if 1000000000 ≤ n then inUnits 9 n ++ ['s']
    else if 1000000 ≤ n then inUnits 6 n ++ ['m', 's']
    else if 1000 ≤ n then inUnits 3 n ++ ['µ', 's']
    else inUnits 0 n ++ ['n', 's']

end Span

end LeasePool
