import LeasePool.Proofs.Fleet.Exclusion
import LeasePool.Proofs.Fleet.Memory

/-!
# The member leases of a pod

Which member leases a pod holds, as the store has it, and what a call does to that; and when a
replica's memory is in keeping with it. The other half is about calls that fail: an update that
loses a race was made of a lease that is no longer stored, and whatever else fails was not
answered at all.
-/

namespace LeasePool

namespace History

/-- The lease is a member lease of the pool that is stored, and the pod holds it. -/
structure Holds (h : History) (p : Pool) (pod : String) (l : Lease) : Prop where
  stored : h.scene.store.leases.get? l.key = some l
  held : l.isHeldBy pod = true
  named : p.Names .member l.name

/-- The pod of a replica holds one member lease at most, and if the replica knows of one, no
other. -/
structure IsTidy (h : History) (p : Pool) (pod : String) (i : Nat) : Prop where
  single : ∀ l m, h.Holds p pod l → h.Holds p pod m → l = m
  named : ∀ name, h.held? i = some name → p.Names .member name
  known : ∀ name, h.held? i = some name → ∀ l, h.Holds p pod l → l.name = name

/-- An errand has stored a claim of a pod. -/
def HasClaimed (h : History) (errand : Nat) (pod : String) (k : LeaseKey) : Prop :=
  ∃ w ∈ h.log, w.errand = errand ∧
    ∃ l, w.stored? = some l ∧ l.key = k ∧ l.isHeldBy pod = true

/-- A call of an errand was not answered. -/
def HasFailed (h : History) (errand : Nat) : Prop :=
  ∃ w ∈ h.log, w.errand = errand ∧ w.isAnswered = false

variable {h h' : History} {p : Pool} {pod : String} {i n : Nat} {c : StoreCall} {l m : Lease}

theorem Grows.hasClaimed {k : LeaseKey} (g : h.Grows h') (H : h.HasClaimed n pod k) :
    h'.HasClaimed n pod k := by
  obtain ⟨w, hw, rest⟩ := H
  exact ⟨w, g.log.subset hw, rest⟩

theorem Grows.hasFailed (g : h.Grows h') (H : h.HasFailed n) : h'.HasFailed n := by
  obtain ⟨w, hw, rest⟩ := H
  exact ⟨w, g.log.subset hw, rest⟩

/-- Without a write a pod holds what it held. -/
theorem Quiet.holds (q : h.Quiet h') : h'.Holds p pod l ↔ h.Holds p pod l := by
  constructor <;> (rintro ⟨stored, held, named⟩; refine ⟨?_, held, named⟩)
  · rwa [q.leases] at stored
  · rwa [q.leases]

/-- A call that stores nothing changes no holder. -/
theorem holds_call_of_not_stored (hs : c.stored? (h.reply c) = none) :
    (h.call i n c).Holds p pod m ↔ h.Holds p pod m := by
  constructor <;> (rintro ⟨stored, held, named⟩; refine ⟨?_, held, named⟩)
  · rw [scene_call_of_not_stored hs] at stored
    exact stored
  · rw [scene_call_of_not_stored hs]
    exact stored

/-- What a pod holds after a call that stored a lease: that lease, if it is the pod's, and what
it held under other keys. -/
theorem holds_call_of_stored (hs : c.stored? (h.reply c) = some l)
    (H : (h.call i n c).Holds p pod m) : m = l ∨ (m.key ≠ l.key ∧ h.Holds p pod m) := by
  obtain ⟨stored, held, named⟩ := H
  obtain ⟨a, hl, hw⟩ := store_call_of_stored (i := i) (n := n) hs
  have key : l.key = a.key := by rw [hl]; rfl
  rw [hw, MemoryStore.get?_write, ← key, ← hl] at stored
  by_cases same : m.key = l.key
  · rw [if_pos same] at stored
    exact .inl (Option.some.inj stored).symm
  · rw [if_neg same] at stored
    exact .inr ⟨same, stored, held, named⟩

/-- A tidy memory stays so while the pod is given nothing and the replica learns nothing. -/
theorem IsTidy.mono (T : h.IsTidy p pod i) (holds : ∀ l, h'.Holds p pod l → h.Holds p pod l)
    (held : ∀ name, h'.held? i = some name → h.held? i = some name) : h'.IsTidy p pod i where
  single l m hl hm := T.single l m (holds l hl) (holds m hm)
  named name hn := T.named name (held name hn)
  known name hn l hl := T.known name (held name hn) l (holds l hl)

/-! ## Failures -/

/-- An update of a lease that is stored as it was read does not lose a race. -/
theorem get?_ne_of_race {e : Edit} {err : PoolError}
    (hr : h.reply (.updateLease (l.edit e)) = .error err)
    (race : (err.isConflict || err.isNotFound) = true) :
    h.scene.store.leases.get? l.key ≠ some l := by
  intro found
  simp only [reply, MemoryStore.answer] at hr
  split at hr
  · obtain rfl := Except.error.inj hr
    simp [PoolError.isConflict, PoolError.isNotFound] at race
  · rw [← Lease.key_edit (e := e)] at found
    have shows : MemoryStore.Shows (l.edit e) l := .inr Lease.version_edit
    rw [MemoryStore.update_of_shows found shows] at hr
    contradiction

/-- A store that is not switched off refuses nothing but what has lost a race. -/
theorem race_of_online {c : StoreCall} {err : PoolError} (online : h.scene.store.offline = false)
    (hr : h.reply c = .error err) : (err.isConflict || err.isNotFound) = true := by
  simp only [reply, MemoryStore.answer, online, Bool.false_eq_true, if_false] at hr
  cases c with
  | createLease l =>
    simp only [MemoryStore.create] at hr
    split at hr
    · obtain rfl := Except.error.inj hr
      rfl
    · contradiction
  | updateLease l =>
    simp only [MemoryStore.update] at hr
    split at hr
    · obtain rfl := Except.error.inj hr
      rfl
    · split at hr
      · obtain rfl := Except.error.inj hr
        rfl
      · contradiction
  | _ => contradiction

/-- An error that is no lost race is that of a store which is switched off. -/
theorem isAnswered_of_error {c : StoreCall} {err : PoolError} (hr : h.reply c = .error err)
    (other : (err.isConflict || err.isNotFound) = false) : err = .unavailable .offline := by
  cases offline : h.scene.store.offline with
  | false =>
    rw [race_of_online offline hr] at other
    contradiction
  | true =>
    rw [reply, MemoryStore.answer_of_offline offline] at hr
    exact (Except.error.inj hr).symm

/-- Nobody loses a race by reading. -/
theorem not_race_of_read {c : StoreCall} {err : PoolError} (read : c.written? = none)
    (hr : h.reply c = .error err) : (err.isConflict || err.isNotFound) = false := by
  simp only [reply, MemoryStore.answer] at hr
  split at hr
  · rw [← Except.error.inj hr]
    rfl
  · cases c with
    | createLease l => contradiction
    | updateLease l => contradiction
    | _ => contradiction

/-- A call with such an error was not answered. -/
theorem hasFailed_call {c : StoreCall} {err : PoolError} (hr : h.reply c = .error err)
    (other : (err.isConflict || err.isNotFound) = false) : (h.call i n c).HasFailed n := by
  refine ⟨_, List.mem_cons_self, rfl, ?_⟩
  have unavailable : h.reply c = .error (.unavailable .offline) := by
    rw [hr, isAnswered_of_error hr other]
  simp only [Exchange.isAnswered, unavailable]

end History

end LeasePool
