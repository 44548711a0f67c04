/-!
# Tickers

When the next tick of a controller is due. A tick that is a little late moves nothing. One that
is later than that has missed others, which are dropped: the next tick is at the next multiple of
the period after now.
-/

namespace LeasePool

/-- The ticks of a controller, in milliseconds. -/
structure Ticker where
  /-- When the next tick is due. -/
  deadline : Nat
  period : Nat
  deriving DecidableEq, Repr

namespace Ticker

/-- By how much a tick may be late without having missed any. -/
def tolerance : Nat := 5

/-- Whether the tick is due. -/
def isDue (t : Ticker) (now : Nat) : Bool := t.deadline ≤ now

/-- The ticker after a tick that was due has been taken. -/
def after (t : Ticker) (now : Nat) : Ticker :=
  if t.deadline + tolerance < now then
    { t with deadline := now + t.period - (now - t.deadline) % t.period }
  else { t with deadline := t.deadline + t.period }

end Ticker

end LeasePool
