import LeasePool.Json.Basic
import LeasePool.Membership.Coordinator

/-!
# Readiness

Whether a participant may be given work. Without a member lease it has no stable identity, and
so it is not ready, unless the settings say otherwise.
-/

namespace LeasePool

/-- Who a process is: the holder it writes into leases, and the namespace of its leases. -/
structure Identity where
  ns : String
  pod : String
  deriving DecidableEq, Repr, Inhabited

/-- Why a report names no lease. -/
inductive NoLease where
  | notEnabled
  | notHeld
  deriving DecidableEq, Repr

/-- The wording of a reason. -/
def NoLease.message : NoLease → String
  | notEnabled => "member lease is not enabled"
  | notHeld => "no member lease currently held"

/-- What a check goes by besides the membership. -/
structure ReadinessCheck where
  leaseEnabled : Bool := true
  requireLease : Bool := true
  pool : String
  identity : Identity
  deriving DecidableEq, Repr

/-- The outcome of a check. -/
structure ReadinessReport where
  isUp : Bool
  leaseEnabled : Bool
  lease : Except NoLease String
  pool : String
  identity : Identity

namespace ReadinessCheck

/-- Checks the membership. -/
def evaluate (check : ReadinessCheck) (c : Coordinator) : ReadinessReport :=
  let report isUp lease : ReadinessReport :=
    { isUp, leaseEnabled := check.leaseEnabled, lease, pool := check.pool
      identity := check.identity }
  if !check.leaseEnabled then report true (.error .notEnabled)
  else match c.currentLease? with
    | some lease => report true (.ok lease)
    | none => report (!check.requireLease) (.error .notHeld)

end ReadinessCheck

namespace ReadinessReport

/-- The status of a report. -/
def status (r : ReadinessReport) : Json := .string (if r.isUp then "UP" else "DOWN")

/-- A report as JSON. -/
def encode (r : ReadinessReport) : Json :=
  let (lease, reason) := match r.lease with
    | .ok lease => (some lease, none)
    | .error reason => (none, some reason.message)
  .ofMembers <| [("status", r.status), ("leaseEnabled", .bool r.leaseEnabled),
      ("leaseAcquired", .bool lease.isSome)]
    ++ Json.member "leaseName" .string lease
    ++ [("poolName", .string r.pool), ("podName", .string r.identity.pod),
      ("podNamespace", .string r.identity.ns)]
    ++ Json.member "reason" .string reason

end ReadinessReport

end LeasePool
