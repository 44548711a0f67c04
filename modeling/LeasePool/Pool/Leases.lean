import LeasePool.Config.Settings
import LeasePool.Lease.Edit
import LeasePool.Pool.Topology

/-!
# Operations on the leases of a pool

Creating, claiming, renewing and releasing leases. Every way to claim goes by the one rule of
`Lease.availableTo?` and through the one renewal `renew`. A write that loses a race is an answer,
"not acquired", and never an error; all other errors of the store are passed on.

## Main definitions

* `Pool`: the leases of one pool in one namespace.
* `Pool.ensure`: a lease exists and its managed members are right.
* `Pool.renew`, `Pool.renewByName`: claims a lease, or renews the claim.
* `Pool.acquireLeader`, `Pool.acquireMember`, `Pool.acquireMemberHinted`: claims a lease of a
  role.
* `Pool.release`: gives a claim up.
-/

namespace LeasePool

/-- The leases of one pool in one namespace. -/
structure Pool where
  ns : String
  name : String
  /-- Seconds for which renewals are good, by role. -/
  duration : PerRole Int32
  /-- Where the number of members and the owners of leases come from. -/
  topology : Topology
  deriving DecidableEq

namespace Pool

open Attempt

/-- The leases that the settings describe. -/
def ofSettings (ns : String) (settings : PoolSettings) (topology : Topology) : Pool :=
  { ns, name := settings.pool, topology
    duration := ⟨settings.lease.leader.duration, settings.lease.member.duration⟩ }

/-! ## Existence -/

/-- Whether the managed members of a lease are right already. -/
def isManaged (l : Lease) (labels : Labels) (duration : Int32) : Bool :=
  l.edit (.manage labels duration) = l

/-- Corrects the managed members of a lease that was read, if they are wrong. If somebody else
was faster, what that one wrote is taken, or the lease as it was read if it is gone. -/
def correct (p : Pool) (existing : Lease) (labels : Labels) (duration : Int32) :
    Attempt Lease := do
  if isManaged existing labels duration then return existing
  else match ← reply (.updateLease (existing.edit (.manage labels duration))) with
    | .ok lease => return lease
    | .error e =>
      if e.isConflict then
        let latest ← call (.getLease p.ns existing.name)
        return latest.getD existing
      else throw e

/-- A new lease, unclaimed. -/
def newLease (p : Pool) (role : Role) (name : String) (owners : List OwnerReference) : Lease :=
  { metadata := { name, ns := p.ns, labels := role.labels p.name, owners }
    claim := { duration := some (p.duration.get role) } }

/-- Makes sure that a lease exists and that its managed members are right. If somebody else
creates it at the same time, what that one created is taken. -/
def ensure (p : Pool) (role : Role) (name : String) : Attempt Lease := do
  match ← call (.getLease p.ns name) with
  | some existing => p.correct existing (role.labels p.name) (p.duration.get role)
  | none =>
    let owners ← p.topology.owners
    match ← reply (.createLease (p.newLease role name owners)) with
    | .ok lease => return lease
    | .error e =>
      if e.isConflict then
        match ← call (.getLease p.ns name) with
        | some lease => return lease
        | none => throw (.notFound .lease name)
      else throw e

/-! ## Claims -/

/-- Whether `requester` may claim the lease at `now`. -/
def available (l : Lease) (requester : String) (now : Instant) : Attempt Bool :=
  orCrash (l.availableTo? requester now)

/-- Writes a claim. There is no result if the write lost a race. -/
def writeClaim (claimed : Lease) : Attempt (Option Lease) := do
  match ← reply (.updateLease claimed) with
  | .ok lease => return some lease
  | .error e => if e.isConflict || e.isNotFound then return none else throw e

/-- Claims a lease that was read, or renews the claim. There is no result if the write lost a
race. That the lease is available is up to the caller; that the claim can be counted is not. -/
def renew (l : Lease) (holder : String) : Attempt (Option Lease) := do
  let now ← ask .now
  let claimed ← orCrash (l.claimed? holder (.utc now))
  writeClaim claimed

/-- A claim that can be counted is written. -/
theorem renew_of_admits {l : Lease} {holder : String} (admits : l.admits holder = true) :
    renew l holder = (do writeClaim (l.edit (.claim holder (.utc (← ask .now))))) := by
  simp only [renew, Lease.claimed?, if_pos admits, orCrash, pure_bind]

/-- Over any other claim there is no going on. -/
theorem renew_of_not_admits {l : Lease} {holder : String} (admits : ¬ l.admits holder = true) :
    renew l holder = (do let _ ← ask .now; orCrash none) := by
  simp only [renew, Lease.claimed?, if_neg admits]
  rfl

/-- Reads a lease and claims it, or renews the claim. There is no result if there is no such
lease, or it is not available, or the write lost a race. -/
def renewByName (p : Pool) (name holder : String) : Attempt (Option Lease) := do
  match ← call (.getLease p.ns name) with
  | none => return none
  | some lease =>
    let now ← ask .now
    if ← available lease holder now then renew lease holder else return none

/-- Claims the leader lease, or renews the claim, and creates the lease if there is none.
Whether it is claimed now is the result. -/
def acquireLeader (p : Pool) (holder name : String) : Attempt Bool := do
  let lease ← do
    match ← call (.getLease p.ns name) with
    | some lease => pure lease
    | none => p.ensure .leader name
  let now ← ask .now
  if ← available lease holder now then
    let renewed ← renew lease holder
    return renewed.isSome
  else return false

/-- Renews the first of the leases for which the write does not lose a race. -/
def renewFirst (holder : String) : List Lease → Attempt (Option Lease)
  | [] => return none
  | lease :: rest => do
    match ← renew lease holder with
    | some renewed => return some renewed
    | none => renewFirst holder rest

/-- Claims the first of the leases that is available and for which the write does not lose a
race. -/
def claimFirst (holder : String) (now : Instant) : List Lease → Attempt (Option Lease)
  | [] => return none
  | lease :: rest => do
    if ← available lease holder now then
      match ← renew lease holder with
      | some claimed => return some claimed
      | none => claimFirst holder now rest
    else claimFirst holder now rest

/-- Leases in order of their names. -/
def byName (leases : List Lease) : List Lease :=
  leases.mergeSort fun a b => a.name ≤ b.name

/-- Claims a member lease of a pool: one that `holder` holds already, or else an available one,
the first by name in either case. There is no result if none could be claimed. -/
def acquireMember (p : Pool) (holder pool : String) : Attempt (Option Lease) := do
  match byName (← call (.listLeases p.ns (memberSelector pool))) with
  | [] => return none
  | leases =>
    match ← renewFirst holder (leases.filter fun l => l.isHeldBy holder) with
    | some renewed => return some renewed
    | none =>
      let now ← ask .now
      claimFirst holder now leases

/-- Claims a member lease of a pool, a known one before all others. -/
def acquireMemberHinted (p : Pool) (holder pool known : String) : Attempt (Option Lease) := do
  match ← p.renewByName known holder with
  | some renewed => return some renewed
  | none => p.acquireMember holder pool

/-- Gives up the claim of `holder`. A lease that is missing, or that somebody else holds, needs
no release; a release whose write loses a race has not happened. -/
def release (p : Pool) (holder name : String) : Attempt Bool := do
  match ← call (.getLease p.ns name) with
  | none => return true
  | some lease =>
    if !lease.isHeldBy holder then return true
    else match ← reply (.updateLease (lease.edit .release)) with
      | .ok _ => return true
      | .error e =>
        if e.isConflict then return false
        else if e.isNotFound then return true
        else throw e

end Pool

end LeasePool
