import LeasePool.Membership.Readiness
import LeasePool.Operation

/-!
# Topology

How many members a pool has, and which object owns its leases. In a cluster both come from the
deployment that controls the pod of the process, by way of the pod's replica set. The name of
the deployment is remembered, but never what it said: the deployment is read anew each time, and
the name forgotten when there is no such deployment any more.
-/

namespace LeasePool

/-- Where a process learns about its pool. -/
inductive Topology where
  /-- A fixed number of members, and leases that nobody owns. -/
  | fixed (replicas : Int32)
  /-- The deployment of the pod. -/
  | deployment (pod : Identity)
  deriving DecidableEq, Repr

namespace Topology

open Attempt

/-- Finds the deployment of a pod: the deployment that owns the replica set that owns the pod. A
deployment that is found is remembered. -/
def walk (pod : Identity) : Attempt (Option Workload) := do
  match ← call (.getWorkload .pod pod.ns pod.pod) with
  | none => return none
  | some found =>
    match found.metadata.ownerName? WorkloadKind.replicaSet.name with
    | none => return none
    | some setName =>
      match ← call (.getWorkload .replicaSet pod.ns setName) with
      | none => return none
      | some replicaSet =>
        match replicaSet.metadata.ownerName? WorkloadKind.deployment.name with
        | none => return none
        | some name =>
          match ← call (.getWorkload .deployment pod.ns name) with
          | none => return none
          | some owner =>
            ask (.setKnownDeployment (some name))
            return some owner

/-- The deployment of a pod: the remembered one, if it is still there, and otherwise the one
that is found. -/
def deployment? (pod : Identity) : Attempt (Option Workload) := do
  match ← ask .knownDeployment with
  | none => walk pod
  | some name =>
    match ← call (.getWorkload .deployment pod.ns name) with
    | some known => return some known
    | none =>
      ask (.setKnownDeployment none)
      walk pod

/-- The number of members that the pool should have, if it is known. -/
def desiredReplicas? : Topology → Attempt (Option Int32)
  | fixed replicas => return some replicas
  | deployment pod => do
    let found ← deployment? pod
    return found.bind (·.replicas)

/-- The reference to a deployment that owns leases. -/
def ownerOf (deployment : Workload) : OwnerReference :=
  { apiVersion := "apps/v1"
    kind := WorkloadKind.deployment.name
    name := deployment.metadata.name
    uid := deployment.metadata.uid.getD ""
    controller := some false }

/-- The owners of new leases. -/
def owners : Topology → Attempt (List OwnerReference)
  | fixed _ => return []
  | deployment pod => do
    let found ← deployment? pod
    return found.toList.map ownerOf

end Topology

end LeasePool
