import LeasePool.Error
import LeasePool.Lease.Naming
import LeasePool.Lease.Basic

/-!
# Calls to the store

The five requests that a store of leases answers. Everything that participants do to each other
they do through these calls.
-/

namespace LeasePool

/-- A request to the store. -/
inductive StoreCall where
  /-- Reads a lease. -/
  | getLease (ns name : String)
  /-- Creates a lease, unless there is one of its name. -/
  | createLease (lease : Lease)
  /-- Replaces a lease, on condition that the stored version is the one shown. -/
  | updateLease (lease : Lease)
  /-- Reads the leases of a namespace whose labels have every entry of the selector. -/
  | listLeases (ns : String) (selector : Labels)
  /-- Reads a pod, a replica set or a deployment. -/
  | getWorkload (kind : WorkloadKind) (ns name : String)
  deriving DecidableEq

/-- The five kinds of requests. -/
inductive StoreMethod where
  | getLease
  | createLease
  | updateLease
  | listLeases
  | getWorkload
  deriving DecidableEq, Repr

namespace StoreCall

/-- What a request yields when it succeeds. -/
abbrev Answer : StoreCall → Type
  | getLease .. => Option Lease
  | createLease _ | updateLease _ => Lease
  | listLeases .. => List Lease
  | getWorkload .. => Option Workload

/-- What a request is answered with. -/
abbrev Reply (call : StoreCall) : Type := Except PoolError call.Answer

/-- The kind of a request. -/
def method : StoreCall → StoreMethod
  | getLease .. => .getLease
  | createLease _ => .createLease
  | updateLease _ => .updateLease
  | listLeases .. => .listLeases
  | getWorkload .. => .getWorkload

/-- The name that a request is about: that of the lease or workload, or the namespace of a
list. -/
def target : StoreCall → String
  | getLease _ name | getWorkload _ _ name => name
  | createLease lease | updateLease lease => lease.name
  | listLeases ns _ => ns

end StoreCall

end LeasePool
