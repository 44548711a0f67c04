import LeasePool.Store.Call

/-!
# A store in memory

A store that compares and swaps. Every write takes the next version of one counter; an update
that shows a version is refused unless it is the stored one; a creation is refused if there is a
lease of the name. Leases can also be put and removed from outside, as an operator would, and
the store can be switched off.

## Main definitions

* `MemoryStore`: the state of the store.
* `MemoryStore.answer`: what it does with a request.
* `MemoryStore.put`, `MemoryStore.remove`: changes from outside.
* `MemoryStore.seedDeployment`: a deployment with its replica set and a pod.
-/

namespace LeasePool

/-- Where a lease is stored. -/
structure LeaseKey where
  ns : String
  name : String
  deriving DecidableEq, Repr

/-- Keys are ordered by namespace, and by name within a namespace. -/
instance : LT LeaseKey :=
  ⟨fun a b => a.ns < b.ns ∨ a.ns = b.ns ∧ a.name < b.name⟩

instance (a b : LeaseKey) : Decidable (a < b) :=
  inferInstanceAs (Decidable (a.ns < b.ns ∨ a.ns = b.ns ∧ a.name < b.name))

instance : Key LeaseKey where
  lt_irrefl a h := by
    rcases h with h | ⟨-, h⟩
    · exact Key.lt_irrefl _ h
    · exact Key.lt_irrefl _ h
  lt_trans {a b c} h k := by
    rcases h with h | ⟨e, h⟩ <;> rcases k with k | ⟨f, k⟩
    · exact .inl (Key.lt_trans h k)
    · exact .inl (f ▸ h)
    · exact .inl (e ▸ k)
    · exact .inr ⟨e.trans f, Key.lt_trans h k⟩
  lt_or_eq_or_gt a b := by
    obtain ⟨ns, name⟩ := a
    obtain ⟨ms, mame⟩ := b
    rcases Key.lt_or_eq_or_gt ns ms with h | rfl | h
    · exact .inl (.inl h)
    · rcases Key.lt_or_eq_or_gt name mame with h | rfl | h
      · exact .inl (.inr ⟨rfl, h⟩)
      · exact .inr (.inl rfl)
      · exact .inr (.inr (.inr ⟨rfl, h⟩))
    · exact .inr (.inr (.inl h))
  decLt := inferInstance

/-- Where the lease is stored. -/
def Lease.key (l : Lease) : LeaseKey := ⟨l.metadata.ns, l.metadata.name⟩

/-- The state of a store in memory. Its two counters are words of 64 bits; they are counted without
a bound here, which is the same for the first `2 ^ 64` changes. -/
structure MemoryStore where
  leases : Table LeaseKey Lease := .empty
  /-- The workloads, none of a kind, namespace and name twice. -/
  workloads : List Workload := []
  /-- The last version given out. -/
  version : Nat := 0
  /-- How many creations and updates have succeeded. -/
  writes : Nat := 0
  /-- Whether the store has been switched off. -/
  offline : Bool := false
  deriving Inhabited

namespace MemoryStore

/-- The text of a version. -/
def versionText (n : Nat) : String := String.ofList (Text.decimal n)

/-- The stored lease. -/
def lease? (s : MemoryStore) (ns name : String) : Option Lease :=
  s.leases.get? ⟨ns, name⟩

/-- The leases of a namespace in order of their names. -/
def leasesOf (s : MemoryStore) (ns : String) : List Lease :=
  (s.leases.entries.filter fun e => e.1.ns = ns).map (·.2)

/-- The stored workload. -/
def workload? (s : MemoryStore) (kind : WorkloadKind) (ns name : String) : Option Workload :=
  s.workloads.find? fun w => w.kind = kind && w.metadata.ns = ns && w.metadata.name = name

/-- The lease with the next version. -/
def stamped (s : MemoryStore) (l : Lease) : Lease :=
  { l with metadata := { l.metadata with version := some (versionText (s.version + 1)) } }

/-! ## Changes from outside -/

/-- Stores a lease with the next version, whatever is there. This counts as no write. -/
def put (s : MemoryStore) (l : Lease) : MemoryStore :=
  { s with leases := s.leases.insert l.key (s.stamped l), version := s.version + 1 }

/-- Removes a lease. -/
def remove (s : MemoryStore) (ns name : String) : MemoryStore :=
  { s with leases := s.leases.erase ⟨ns, name⟩ }

/-- Removes a workload. -/
def removeWorkload (s : MemoryStore) (kind : WorkloadKind) (ns name : String) : MemoryStore :=
  { s with workloads := s.workloads.filter fun w =>
      !(w.kind = kind && w.metadata.ns = ns && w.metadata.name = name) }

/-- Stores a workload, whatever is there. -/
def putWorkload (s : MemoryStore) (w : Workload) : MemoryStore :=
  let s := s.removeWorkload w.kind w.metadata.ns w.metadata.name
  { s with workloads := w :: s.workloads }

@[simp] theorem key_stamped {s : MemoryStore} {l : Lease} : (s.stamped l).key = l.key := rfl

/-! ## Deployments -/

/-- The reference to a controlling owner. -/
def controllerReference (kind : WorkloadKind) (name : String) : OwnerReference :=
  { apiVersion := "apps/v1", kind := kind.name, name, uid := "uid-" ++ name
    controller := some true }

/-- The name of the replica set of a deployment. -/
def replicaSetName (deployment : String) : String := deployment ++ "-rs"

/-- Stores a pod of the replica set of a deployment. -/
def addPod (s : MemoryStore) (ns deployment pod : String) : MemoryStore :=
  s.putWorkload
    { kind := .pod
      metadata :=
        { name := pod, ns
          owners := [controllerReference .replicaSet (replicaSetName deployment)] } }

/-- Stores a deployment, its replica set and a pod. -/
def seedDeployment (s : MemoryStore) (ns deployment : String) (replicas : Int32) (pod : String) :
    MemoryStore :=
  let set := replicaSetName deployment
  let s := s.putWorkload
    { kind := .deployment
      metadata := { name := deployment, ns, uid := some ("uid-" ++ deployment) }
      replicas := some replicas }
  let s := s.putWorkload
    { kind := .replicaSet
      metadata :=
        { name := set, ns, uid := some ("uid-" ++ set)
          owners := [controllerReference .deployment deployment] }
      replicas := some replicas }
  s.addPod ns deployment pod

/-- Changes the number of pods that a stored deployment wants. -/
def setReplicas (s : MemoryStore) (ns deployment : String) (replicas : Int32) : MemoryStore :=
  { s with workloads := s.workloads.map fun w =>
      if w.kind = .deployment && w.metadata.ns = ns && w.metadata.name = deployment then
        { w with replicas := some replicas }
      else w }

/-! ## Requests -/

/-- Stores a lease with the next version, as a successful write. -/
def write (s : MemoryStore) (l : Lease) : MemoryStore :=
  { s.put l with writes := s.writes + 1 }

/-- The lease as a creation stores it, with an identifier of its own. -/
def created (s : MemoryStore) (l : Lease) : Lease :=
  { l with metadata :=
      { l.metadata with uid := some ("lease-uid-" ++ versionText (s.version + 1)) } }

/-- Creates a lease. -/
def create (s : MemoryStore) (l : Lease) : MemoryStore × Except PoolError Lease :=
  if s.leases.contains l.key then (s, .error (.conflict .lease l.name))
  else (s.write (s.created l), .ok (s.stamped (s.created l)))

/-- Updates a lease. One that shows no version is replaced without a condition. -/
def update (s : MemoryStore) (l : Lease) : MemoryStore × Except PoolError Lease :=
  match s.leases.get? l.key with
  | none => (s, .error (.notFound .lease l.name))
  | some stored =>
    if l.metadata.version.isSome && l.metadata.version != stored.metadata.version then
      (s, .error (.conflict .lease l.name))
    else (s.write l, .ok (s.stamped l))

/-- A creation succeeds exactly if there is no lease of the name. -/
theorem create_isOk_iff {s : MemoryStore} {l : Lease} :
    (s.create l).2.isOk ↔ s.leases.get? l.key = none := by
  rw [create, Table.contains]
  cases s.leases.get? l.key <;> simp [Except.isOk, Except.toBool]

/-- An update that shows a version succeeds exactly if that is the stored version. -/
theorem update_isOk_iff {s : MemoryStore} {l : Lease} {v : String}
    (h : l.metadata.version = some v) :
    (s.update l).2.isOk ↔
      ∃ stored, s.leases.get? l.key = some stored ∧ stored.metadata.version = some v := by
  rw [update]
  cases s.leases.get? l.key with
  | none => simp [Except.isOk, Except.toBool]
  | some stored =>
    by_cases e : stored.metadata.version = some v
    · simp [Except.isOk, Except.toBool, h, e]
    · simp [Except.isOk, Except.toBool, h, e, Ne.symm e]

/-- What the store does with a request, and its reply. -/
def answer (s : MemoryStore) (call : StoreCall) : MemoryStore × call.Reply :=
  if s.offline then (s, .error (.unavailable .offline))
  else match call with
    | .getLease ns name => (s, .ok (s.lease? ns name))
    | .createLease l => s.create l
    | .updateLease l => s.update l
    | .listLeases ns selector =>
      (s, .ok ((s.leasesOf ns).filter fun l => selector.selects l.metadata.labels))
    | .getWorkload kind ns name => (s, .ok (s.workload? kind ns name))

end MemoryStore

end LeasePool
