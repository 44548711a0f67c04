import LeasePool.Pool.Leases

/-!
# Participants

A participant of a pool is a process with the name of its pod. It has up to two roles. As a
leader it keeps one member lease in existence for each desired replica, provided that it holds
the leader lease; as a member it holds one member lease and keeps renewing it. Each role goes in
cycles, of which one runs at a time and none fails.
-/

namespace LeasePool

/-- A process that takes part in a pool. -/
structure Participant where
  pool : Pool
  pod : String
  enabled : PerRole Bool
  deriving DecidableEq

namespace Participant

open Attempt

/-- The name under which the cycles of a role are scheduled. -/
def jobName (p : Participant) : Role → String
  | .leader => "flow-pool-leader-scheduler-" ++ p.pool.name
  | .member => "flow-pool-member-scheduler-" ++ p.pool.name

/-- The name of the leader lease. -/
def leaderLease (p : Participant) : String := leaderLeaseName p.pool.name

/-- Makes sure of one member lease after the other. What fails for one of them is of no
consequence for the others. -/
def ensureMembers (p : Participant) : List Nat → Attempt Unit
  | [] => return ()
  | ordinal :: rest => do
    let _ ← outcome (p.pool.ensure .member (memberLeaseName p.pool.name ordinal))
    p.ensureMembers rest

/-- Claims the leader lease, or renews the claim, and then makes sure of the member leases.
Whether the participant is the leader is the result. -/
def reconcile (p : Participant) : Attempt Bool := do
  if ← p.pool.acquireLeader p.pod p.leaderLease then
    match ← p.pool.topology.desiredReplicas? with
    | none => return true
    | some replicas =>
      p.ensureMembers (List.range replicas.toInt.toNat)
      return true
  else return false

/-- Renews the claim on the member lease that is held, or claims one if none is. Whether one is
held afterwards is the result. A failed renewal ends the membership for now; the next call
starts from the beginning. -/
def acquire (p : Participant) : Attempt Bool := do
  match ← ask .heldLease with
  | some held =>
    match ← p.pool.renewByName held p.pod with
    | some _ => return true
    | none =>
      ask (.announce .lost held)
      return false
  | none =>
    match ← p.pool.acquireMember p.pod p.pool.name with
    | some lease =>
      ask (.announce .acquired lease.name)
      return true
    | none => return false

/-- What a role does in a cycle. -/
def work (p : Participant) : Role → Attempt Bool
  | .leader => p.reconcile
  | .member => p.acquire

/-- A cycle of a role. It does nothing for a role that is not enabled or of which a cycle is
running, and what fails is left to the next cycle. -/
def cycle (p : Participant) (role : Role) : Operation Unit := do
  if p.enabled.get role then
    if ← Operation.ask (.enter role) .done then
      let _ ← (p.work role).run
      Operation.ask (.leave role) .done

/-- Gives up the leader lease, as far as possible. -/
def releaseLeader (p : Participant) : Operation Unit := do
  if p.enabled.leader then
    let _ ← (p.pool.release p.pod p.leaderLease).run

/-- Gives up the member lease that is held, as far as possible. -/
def releaseMember (p : Participant) : Operation Unit := do
  match ← Operation.ask .heldLease .done with
  | none => pure ()
  | some held =>
    match ← (p.pool.release p.pod held).run with
    | .ok true => Operation.ask (.announce .released held) .done
    | _ => pure ()

/-- Gives up what a role holds, as far as possible. -/
def release (p : Participant) : Role → Operation Unit
  | .leader => p.releaseLeader
  | .member => p.releaseMember

end Participant

end LeasePool
