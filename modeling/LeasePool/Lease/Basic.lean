import LeasePool.Lease.Metadata
import LeasePool.Text.Blank
import LeasePool.Time.Stamp

/-!
# Leases

A lease is a stored object with a claim: who holds it, since when, when the holder renewed it
last, and for how many seconds a renewal is good. One rule decides who may claim a lease, and
every operation of this library goes by it.

## Main definitions

* `Lease`, `Claim`: the object and its claim.
* `Lease.holder?`: the holder; a blank identity holds nothing.
* `Lease.expiry`: when the claim lapses.
* `Lease.availableTo?`: whether somebody may claim the lease now.
-/

namespace LeasePool

/-- The state of the claim on a lease. -/
structure Claim where
  holder : Option String := none
  /-- Seconds for which a renewal is good. -/
  duration : Option Int32 := none
  /-- When the holder got the lease. -/
  acquired : Option Stamp := none
  /-- When the holder renewed the claim last. -/
  renewed : Option Stamp := none
  /-- How often the lease went from one holder to another. -/
  transitions : Option Int32 := none
  /-- Members that are kept as they are. -/
  extra : Table String Json := .empty
  deriving DecidableEq, Inhabited

/-- A lease as the store holds it. -/
structure Lease where
  metadata : Metadata
  claim : Claim := {}
  deriving DecidableEq, Inhabited

/-- When a claim lapses. -/
inductive Expiry where
  /-- There is no renewal, or no duration. -/
  | unlimited
  | at (time : Stamp)
  /-- The calendar has no such date. -/
  | outOfRange
  deriving DecidableEq

namespace Lease

/-- The name of the lease. -/
def name (l : Lease) : String := l.metadata.name

/-- The holder of the lease. A blank identity holds nothing. -/
def holder? (l : Lease) : Option String :=
  l.claim.holder.filter fun h => !Text.isBlankText h

/-- Whether `identity` holds the lease. -/
def isHeldBy (l : Lease) (identity : String) : Bool :=
  l.holder? = some identity

/-- When the claim lapses: its duration after its last renewal. -/
def expiry (l : Lease) : Expiry :=
  match l.claim.renewed, l.claim.duration with
  | some renewed, some duration =>
    match renewed.plusSeconds? duration.toInt with
    | some time => .at time
    | none => .outOfRange
  | _, _ => .unlimited

/-- Whether `requester` may claim the lease at `now`: nobody holds it, or the claim has no end
to wait for, or its end has passed, or `requester` is the holder. There is no answer if the
claim of a holder ends at a date that the calendar does not have. -/
def availableTo? (l : Lease) (requester : String) (now : Instant) : Option Bool :=
  match l.holder? with
  | none => some true
  | some holder =>
    match l.expiry with
    | .unlimited => some true
    | .at time => some (time.instant < now || holder == requester)
    | .outOfRange => none

end Lease

end LeasePool
