/-!
# The guard of a controller

A controller runs one cycle at a time. Its guard lets a cycle in, unless one is inside, and is
free again when that one has left.
-/

namespace LeasePool

/-- The guard of a controller. -/
structure CycleGuard where
  /-- Whether a cycle is inside. -/
  isRunning : Bool := false
  deriving DecidableEq, Repr, Inhabited

namespace CycleGuard

/-- Lets a cycle in, unless one is inside; whether it did is the first result. -/
def tryEnter (g : CycleGuard) : Bool × CycleGuard := (!g.isRunning, { isRunning := true })

/-- The guard when the cycle has left. -/
def leave (_ : CycleGuard) : CycleGuard := { isRunning := false }

end CycleGuard

end LeasePool
