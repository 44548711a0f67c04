import LeasePool.Json.Basic
import LeasePool.Table

/-!
# Object metadata

What every stored object carries: its name, its namespace, the version token that conditional
updates compare, labels, and references to the objects that own it. Members that this library
does not manage are kept as they are.
-/

namespace LeasePool

/-- Labels by key. -/
abbrev Labels := Table String String

/-- The reference from an object to one that owns it. -/
structure OwnerReference where
  apiVersion : String
  kind : String
  name : String
  uid : String
  controller : Option Bool := none
  deriving DecidableEq, Inhabited

/-- Whether the owner is marked as the controlling one. -/
def OwnerReference.isController (owner : OwnerReference) : Bool :=
  owner.controller.getD false

/-- The metadata of a stored object. -/
structure Metadata where
  name : String
  ns : String := ""
  uid : Option String := none
  /-- The token that a conditional update has to show. -/
  version : Option String := none
  labels : Labels := .empty
  owners : List OwnerReference := []
  /-- Members that are kept as they are. -/
  extra : Table String Json := .empty
  deriving DecidableEq, Inhabited

namespace Metadata

/-- The owners of a kind, the controlling ones first and otherwise in their order. -/
def ownersOf (m : Metadata) (kind : String) : List OwnerReference :=
  (m.owners.filter fun o => o.kind = kind).mergeSort fun a b => a.isController || !b.isController

/-- The name of the owner of a kind, a controlling one before others. -/
def ownerName? (m : Metadata) (kind : String) : Option String :=
  (m.ownersOf kind).head?.map (·.name)

end Metadata

/-- The kinds of objects that lead from a pod to its deployment. -/
inductive WorkloadKind where
  | pod
  | replicaSet
  | deployment
  deriving DecidableEq, Repr

/-- The name of a kind in stored objects. -/
def WorkloadKind.name : WorkloadKind → String
  | .pod => "Pod"
  | .replicaSet => "ReplicaSet"
  | .deployment => "Deployment"

/-- A pod, a replica set or a deployment. -/
structure Workload where
  kind : WorkloadKind
  metadata : Metadata
  /-- The number of pods wanted; a pod has none. -/
  replicas : Option Int32 := none
  deriving DecidableEq

end LeasePool
