import LeasePool.Proofs.Store.Twins

/-!
# What has been done to a store

A store in memory from its beginning on: requests of clients in any order, leases that are put or
removed from outside, changes of the workloads, and times at which the store is switched off. What
is done gets a number, so that one can tell which of the leases that were ever stored under a key
is the one that lies there now. A version is as good as such a number. It is never assigned again,
not even when a lease is removed and another one created under its name, and so whoever shows the
version of a stored lease has seen that lease and no other.

## Main definitions

* `StoreEvent`: something that is done to a store.
* `Ledger`: all that has been done to a store, with `Ledger.store` for what has come of it.
* `Ledger.stored?`, `Ledger.source?`: the lease that an event has stored, and the event from which
  the lease with a key comes.
* `Ledger.IsSettled`: what can be relied on.

## Main statements

* `Ledger.isTraced`: each stored lease is what its source has stored, under a version of its own.
-/

namespace LeasePool

/-- Something that is done to a store. -/
inductive StoreEvent where
  /-- A client makes a request. -/
  | request (call : StoreCall)
  | put (lease : Lease)
  | remove (ns name : String)
  | putWorkload (workload : Workload)
  | removeWorkload (kind : WorkloadKind) (ns name : String)
  | setReplicas (ns deployment : String) (replicas : Int32)
  | switch (offline : Bool)

namespace StoreEvent

/-- The store after an event. -/
def after (s : MemoryStore) : StoreEvent → MemoryStore
  | request c => (s.answer c).1
  | put l => s.put l
  | remove ns name => s.remove ns name
  | putWorkload w => s.putWorkload w
  | removeWorkload kind ns name => s.removeWorkload kind ns name
  | setReplicas ns deployment replicas => s.setReplicas ns deployment replicas
  | switch offline => { s with offline }

/-- The lease that the event stores, with the version that is assigned to it. -/
def stored? (s : MemoryStore) : StoreEvent → Option Lease
  | request c => c.stored? (s.answer c).2
  | put l => some (s.stamped l)
  | _ => none

/-- Whether the event is a creation or an update that succeeds. -/
def isWrite (s : MemoryStore) : StoreEvent → Bool
  | request c => (c.stored? (s.answer c).2).isSome
  | _ => false

/-- Whether the event removes what lies under a key. -/
def removes (k : LeaseKey) : StoreEvent → Bool
  | remove ns name => (⟨ns, name⟩ : LeaseKey) = k
  | _ => false

variable {s : MemoryStore} {e : StoreEvent} {l : Lease} {k : LeaseKey}

/-- **An event that stores a lease** puts it under its key, with the next version. -/
theorem after_of_stored (h : e.stored? s = some l) :
    ∃ a, l = s.stamped a ∧ (e.after s).version = s.version + 1 ∧
      (e.after s).leases = s.leases.insert a.key l := by
  cases e with
  | request c =>
    rcases MemoryStore.stored?_answer h with ⟨a, rfl, -, rfl, hw⟩ | ⟨a, b, rfl, -, -, rfl, hw⟩
    · refine ⟨s.created a, rfl, ?_, ?_⟩ <;> simp only [after, hw] <;> rfl
    · refine ⟨a, rfl, ?_, ?_⟩ <;> simp only [after, hw] <;> rfl
  | put a =>
    obtain rfl := Option.some.inj h
    exact ⟨a, rfl, rfl, rfl⟩
  | remove | putWorkload | removeWorkload | setReplicas | switch => simp [stored?] at h

/-- An event that stores no lease assigns no version, and at most removes a lease. -/
theorem after_of_not_stored (h : e.stored? s = none) :
    (e.after s).version = s.version ∧
      (e.after s).leases.get? k = if e.removes k then none else s.leases.get? k := by
  cases e with
  | request c => simp [after, removes, MemoryStore.answer_of_not_stored h]
  | put a => simp [stored?] at h
  | remove ns name =>
    constructor
    · rfl
    · simp only [after, removes, decide_eq_true_eq, eq_comm (b := k)]
      exact Table.get?_erase
  | putWorkload | removeWorkload | setReplicas | switch => simp [removes]; exact ⟨rfl, rfl⟩

/-- Creations and updates that succeed are counted, and nothing else is. -/
theorem writes_after : (e.after s).writes = s.writes + if e.isWrite s then 1 else 0 := by
  cases e with
  | request c =>
    rcases (c.stored? (s.answer c).2).eq_none_or_eq_some with hc | ⟨l, hc⟩
    · simp [after, isWrite, hc, MemoryStore.answer_of_not_stored hc]
    · rcases MemoryStore.stored?_answer hc with ⟨a, -, -, -, hw⟩ | ⟨a, b, -, -, -, -, hw⟩ <;>
        simp [after, isWrite, hc, hw, MemoryStore.write, MemoryStore.put]
  | put | remove | putWorkload | removeWorkload | setReplicas | switch => rfl

end StoreEvent

/-- All that has been done to a store that was empty at the beginning, the last event first. The
events are numbered from 0 on in the order in which they happened. -/
abbrev Ledger := List StoreEvent

namespace Ledger

/-- What has become of the store. -/
def store : Ledger → MemoryStore
  | [] => {}
  | e :: h => e.after (store h)

/-- The lease that the event with a number has stored. -/
def stored? : Ledger → Nat → Option Lease
  | [], _ => none
  | e :: h, n => if n = h.length then e.stored? (store h) else stored? h n

/-- The version that the event with a number has assigned. -/
def assigned? (h : Ledger) (n : Nat) : Option String := (h.stored? n).bind (·.metadata.version)

/-- The number of the event that has stored what lies under a key now: the last one that has
stored anything there, unless it has been removed since. -/
def source? : Ledger → LeaseKey → Option Nat
  | [], _ => none
  | e :: h, k =>
    match e.stored? (store h) with
    | some l => if l.key = k then some h.length else source? h k
    | none => if e.removes k then none else source? h k

/-- How many versions have been assigned. -/
def assignments : Ledger → Nat
  | [] => 0
  | e :: h => assignments h + if (e.stored? (store h)).isSome then 1 else 0

/-- How many creations and updates have succeeded. -/
def successes : Ledger → Nat
  | [] => 0
  | e :: h => successes h + if e.isWrite (store h) then 1 else 0

variable {h : Ledger} {e : StoreEvent} {l l' : Lease} {k k' : LeaseKey} {m n : Nat}

/-- What has been stored was stored by one of the events. -/
theorem lt_length_of_stored? (hs : h.stored? n = some l) : n < h.length := by
  induction h with
  | nil => simp [stored?] at hs
  | cons e h ih =>
    rw [stored?] at hs
    split at hs
    · simp_all
    · exact Nat.lt_succ_of_lt (ih hs)

/-- What an event has stored does not depend on the events that come later. -/
theorem stored?_cons (hs : h.stored? n = some l) : stored? (e :: h) n = some l := by
  have earlier := lt_length_of_stored? hs
  rw [stored?, if_neg (by omega), hs]

/-! ## Versions and sources -/

/-- Each stored lease is what its source has stored, under a version of its own. -/
structure IsTraced (h : Ledger) : Prop where
  /-- The counter of versions says how many there are. -/
  counted : h.store.version = h.assignments
  /-- A version that was assigned is one that was given out. -/
  given : ∀ n l, h.stored? n = some l →
    ∃ v ≤ h.store.version, l.metadata.version = some (MemoryStore.versionText v)
  /-- Different events assign different versions. -/
  once : ∀ m n l l', h.stored? m = some l → h.stored? n = some l' →
    l.metadata.version = l'.metadata.version → m = n
  /-- What lies under a key is what its source has stored. -/
  current : ∀ k, h.store.leases.get? k = (h.source? k).bind h.stored?
  /-- The source of what lies under a key has stored a lease there. -/
  source : ∀ k n, h.source? k = some n → ∃ l, h.stored? n = some l ∧ l.key = k

/-- A version that is yet to be given out has not been assigned. -/
theorem IsTraced.version_ne (T : h.IsTraced) (hs : h.stored? n = some l) :
    l.metadata.version ≠ some (MemoryStore.versionText (h.store.version + 1)) := by
  obtain ⟨v, le, version⟩ := T.given n l hs
  intro same
  rw [version, Option.some.injEq] at same
  have := MemoryStore.versionText_injective same
  omega

/-- What has been stored was stored by the last event or before. -/
theorem eq_or_stored?_of_cons (hs : e.stored? h.store = some l)
    (hn : stored? (e :: h) n = some l') : n = h.length ∧ l' = l ∨ h.stored? n = some l' := by
  rw [stored?] at hn
  by_cases last : n = h.length
  · left
    rw [if_pos last, hs, Option.some.injEq] at hn
    exact ⟨last, hn.symm⟩
  · right
    rwa [if_neg last] at hn

/-- **An event that stores a lease** is the source of it from then on. -/
theorem IsTraced.cons_of_stored (T : h.IsTraced) (hs : e.stored? h.store = some l) :
    IsTraced (e :: h) := by
  obtain ⟨a, rfl, version, leases⟩ := StoreEvent.after_of_stored hs
  have new : stored? (e :: h) h.length = some (h.store.stamped a) := by simp [stored?, hs]
  have source : ∀ k, source? (e :: h) k = if a.key = k then some h.length else h.source? k := by
    intro k
    rw [source?, hs]
    rfl
  constructor
  · rw [store, version, T.counted]
    simp [assignments, hs]
  · intro n l hn
    rw [store, version]
    rcases eq_or_stored?_of_cons hs hn with ⟨-, rfl⟩ | earlier
    · exact ⟨_, Nat.le_refl _, rfl⟩
    · obtain ⟨v, le, given⟩ := T.given n l earlier
      exact ⟨v, by omega, given⟩
  · -- The version of the new lease is none of those that were assigned before.
    intro m n l l' hm hn same
    rcases eq_or_stored?_of_cons hs hm with ⟨rfl, rfl⟩ | hm <;>
      rcases eq_or_stored?_of_cons hs hn with ⟨rfl, rfl⟩ | hn
    · rfl
    · exact absurd same.symm (T.version_ne hn)
    · exact absurd same (T.version_ne hm)
    · exact T.once m n l l' hm hn same
  · intro k
    rw [store, leases, Table.get?_insert, source]
    by_cases own : a.key = k
    · simp [own, new]
    · rw [if_neg (Ne.symm own), if_neg own, T.current]
      cases hk : h.source? k with
      | none => rfl
      | some n =>
        obtain ⟨b, hb, -⟩ := T.source k n hk
        simp [hb, stored?_cons hb]
  · intro k n hn
    rw [source] at hn
    split at hn
    · rename_i own
      rw [Option.some.injEq] at hn
      exact ⟨h.store.stamped a, hn ▸ new, own⟩
    · obtain ⟨b, hb, key⟩ := T.source k n hn
      exact ⟨b, stored?_cons hb, key⟩

/-- An event that stores no lease leaves what lies in the store to its sources. -/
theorem IsTraced.cons_of_not_stored (T : h.IsTraced) (hs : e.stored? h.store = none) :
    IsTraced (e :: h) := by
  have version : (e.after h.store).version = h.store.version :=
    (StoreEvent.after_of_not_stored (k := ⟨"", ""⟩) hs).1
  have stored : ∀ n, stored? (e :: h) n = h.stored? n := by
    intro n
    rw [stored?]
    split
    · rename_i last
      cases hn : h.stored? n with
      | none => exact hs
      | some l =>
        have := lt_length_of_stored? hn
        omega
    · rfl
  have source : ∀ k, source? (e :: h) k = if e.removes k then none else h.source? k := by
    intro k
    simp [source?, hs]
  constructor
  · rw [store, version, T.counted]
    simp [assignments, hs]
  · intro n l hn
    rw [store, version]
    exact T.given n l (stored n ▸ hn)
  · intro m n l l' hm hn
    rw [stored] at hm hn
    exact T.once m n l l' hm hn
  · intro k
    rw [store, (StoreEvent.after_of_not_stored hs).2, source, T.current, funext stored]
    split <;> rfl
  · intro k n hn
    rw [source] at hn
    split at hn
    · contradiction
    · rw [stored]
      exact T.source k n hn

/-- **Each stored lease is what its source has stored**, whatever has been done to the store. -/
theorem isTraced (h : Ledger) : h.IsTraced := by
  induction h with
  | nil => constructor <;> simp [store, stored?, source?, assignments]
  | cons e h ih =>
    cases hs : e.stored? (store h) with
    | none => exact ih.cons_of_not_stored hs
    | some l => exact ih.cons_of_stored hs

/-- Leases lie under their own keys. -/
theorem key_of_get? (there : h.store.leases.get? k = some l) : l.key = k := by
  rw [(isTraced h).current, Option.bind_eq_some_iff] at there
  obtain ⟨n, hn, stored⟩ := there
  obtain ⟨b, hb, key⟩ := (isTraced h).source k n hn
  rw [stored, Option.some.injEq] at hb
  rw [hb, key]

/-- The counter of writes says how many have succeeded. -/
theorem writes_store (h : Ledger) : h.store.writes = h.successes := by
  induction h with
  | nil => rfl
  | cons e h ih => rw [store, StoreEvent.writes_after, ih, successes]

/-! ## What can be relied on -/

/-- What can be relied on in a store to which all this has been done. -/
structure IsSettled (h : Ledger) : Prop where
  /-- As many versions have been assigned as the counter says, so while there are fewer than 2⁶⁴
  of them they fit into 64 bits. -/
  counted : h.store.version = h.assignments
  /-- Whatever was stored has got a version, and no other event has assigned that one. -/
  once : ∀ m l, h.stored? m = some l →
    ∃ v, l.metadata.version = some v ∧ ∀ n, h.assigned? n = some v ↔ n = m
  /-- What lies under a key is the very lease that its source has stored there. -/
  current : ∀ k l, h.store.leases.get? k = some l ↔
    ∃ n, h.source? k = some n ∧ h.stored? n = some l
  /-- Stored leases have different versions. -/
  distinct : ∀ k k' l l', h.store.leases.get? k = some l → h.store.leases.get? k' = some l' →
    l.metadata.version = l'.metadata.version → k = k'
  /-- An update that shows a version succeeds exactly if what lies under the key is what the
  event has stored that has assigned this version. -/
  swaps : ∀ l v, h.store.offline = false → l.metadata.version = some v →
    ((h.store.answer (.updateLease l)).2.isOk ↔
      ∃ n, h.source? l.key = some n ∧ h.assigned? n = some v)
  /-- A creation succeeds exactly if there is nothing under the key. -/
  creates : ∀ l, h.store.offline = false →
    ((h.store.answer (.createLease l)).2.isOk ↔ h.store.leases.get? l.key = none)
  /-- A request that ends with an error has changed nothing. -/
  refuses : ∀ c e, (h.store.answer c).2 = .error e → (h.store.answer c).1 = h.store
  /-- The counter of writes says how many creations and updates have succeeded. -/
  writes : h.store.writes = h.successes
  /-- Every lease of the namespace that has all entries of the selector is listed once, in order
  of the names. -/
  lists : ∀ ns selector, h.store.offline = false →
    ∃ ls, (h.store.answer (.listLeases ns selector)).2 = .ok ls ∧
      (∀ l, l ∈ ls ↔ h.store.leases.get? ⟨ns, l.name⟩ = some l ∧
        ∀ k v, selector.get? k = some v → l.metadata.labels.get? k = some v) ∧
      ls.Pairwise fun l m => l.name < m.name

/-- An update that shows the version of what lies under its key. -/
theorem update_isOk_iff_source? {v : String} (online : h.store.offline = false)
    (shows : l.metadata.version = some v) :
    (h.store.answer (.updateLease l)).2.isOk ↔
      ∃ n, h.source? l.key = some n ∧ h.assigned? n = some v := by
  have answer : h.store.answer (.updateLease l) = h.store.update l := by
    simp [MemoryStore.answer, online]
  rw [answer, MemoryStore.update_isOk_iff shows, (isTraced h).current]
  simp only [assigned?, Option.bind_eq_some_iff]
  constructor
  · rintro ⟨stored, ⟨n, hn, hs⟩, version⟩
    exact ⟨n, hn, stored, hs, version⟩
  · rintro ⟨n, hn, stored, hs, version⟩
    exact ⟨stored, ⟨n, hn, hs⟩, version⟩

/-- A request that ends with an error has stored nothing. -/
theorem answer_of_error {s : MemoryStore} {c : StoreCall} {e : PoolError}
    (error : (s.answer c).2 = .error e) : (s.answer c).1 = s := by
  apply MemoryStore.answer_of_not_stored
  rw [error]
  cases c <;> rfl

/-- What a list has, and in which order. -/
theorem list_leasesOf {ns : String} {selector : Labels} :
    (∀ l, l ∈ (h.store.leasesOf ns).filter (fun l => selector.selects l.metadata.labels) ↔
      h.store.leases.get? ⟨ns, l.name⟩ = some l ∧
        ∀ k v, selector.get? k = some v → l.metadata.labels.get? k = some v) ∧
    ((h.store.leasesOf ns).filter fun l => selector.selects l.metadata.labels).Pairwise
      fun l m => l.name < m.name := by
  have keyed : ∀ k l, h.store.leases.get? k = some l → l.key = k := fun k l => key_of_get?
  have own : ∀ l, l ∈ h.store.leasesOf ns ↔ h.store.leases.get? ⟨ns, l.name⟩ = some l := by
    intro l
    rw [MemoryStore.mem_leasesOf_iff keyed]
    constructor
    · rintro ⟨there, rfl⟩
      exact there
    · intro there
      have key := keyed _ _ there
      exact ⟨by rwa [key], congrArg LeaseKey.ns key⟩
  constructor
  · intro l
    rw [List.mem_filter, own, Labels.selects_iff]
  · refine ((MemoryStore.pairwise_leasesOf keyed).filter _).imp_of_mem ?_
    intro l m hl hm before
    have ns_eq : ∀ l ∈ h.store.leasesOf ns, l.metadata.ns = ns := by
      intro l hl
      exact ((MemoryStore.mem_leasesOf_iff keyed).1 hl).2
    have hl := ns_eq l (List.mem_filter.1 hl).1
    have hm := ns_eq m (List.mem_filter.1 hm).1
    rcases before with lt | ⟨-, lt⟩
    · simp only [Lease.key, hl, hm] at lt
      exact absurd lt (Key.lt_irrefl ns)
    · exact lt

/-- **What can be relied on**, whatever has been done to a store and in whichever order. -/
theorem isSettled (h : Ledger) : h.IsSettled where
  counted := (isTraced h).counted
  once := by
    intro m l hm
    obtain ⟨v, -, version⟩ := (isTraced h).given m l hm
    refine ⟨_, version, ?_⟩
    intro n
    simp only [assigned?, Option.bind_eq_some_iff]
    constructor
    · rintro ⟨l', hn, same⟩
      exact (isTraced h).once n m l' l hn hm (same.trans version.symm)
    · rintro rfl
      exact ⟨l, hm, version⟩
  current := by
    intro k l
    rw [(isTraced h).current, Option.bind_eq_some_iff]
  distinct := by
    intro k k' l l' hl hl' same
    have keys : l.key = k ∧ l'.key = k' := ⟨key_of_get? hl, key_of_get? hl'⟩
    rw [(isTraced h).current, Option.bind_eq_some_iff] at hl hl'
    obtain ⟨m, -, hm⟩ := hl
    obtain ⟨n, -, hn⟩ := hl'
    have event : m = n := (isTraced h).once m n l l' hm hn same
    rw [event, hn, Option.some.injEq] at hm
    rw [← keys.1, ← keys.2, hm]
  swaps := by
    intro l v online shows
    exact update_isOk_iff_source? online shows
  creates := by
    intro l online
    have answer : h.store.answer (.createLease l) = h.store.create l := by
      simp [MemoryStore.answer, online]
    rw [answer]
    exact MemoryStore.create_isOk_iff
  refuses := by
    intro c e error
    exact answer_of_error error
  writes := writes_store h
  lists := by
    intro ns selector online
    refine ⟨_, ?_, list_leasesOf⟩
    simp [MemoryStore.answer, online]

/-- A lease that has been removed and created again is another one. -/
example :
    let l : Lease := { metadata := { name := "member", ns := "ns" } }
    let h : Ledger := [.request (.createLease l), .remove "ns" "member", .request (.createLease l)]
    h.assigned? 0 = some "1" ∧ h.assigned? 2 = some "2" ∧ h.source? l.key = some 2 := by
  decide +kernel

end Ledger

end LeasePool
