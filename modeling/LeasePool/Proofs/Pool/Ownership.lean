import LeasePool.Proofs.Pool.Reconciliation

/-!
# Who owns the member leases

The owners of a lease are settled when it is created, by what the topology leads to at that time.
A reconciliation that succeeds creates the member leases that are missing for the owners that it
finds, and corrects the duration and the labels of the others. But it leaves the owners of a lease
that exists alone, so a lease that was created while no deployment could be found, or for a
deployment that has been replaced, does not get the current owners by any number of
reconciliations.
-/

namespace LeasePool

namespace Reconciliation

open Scene

/-- What becomes of the owners in a reconciliation that has read how many members there should
be. -/
structure SettlesOwners (r : Reconciliation) (desired : Option Int32) : Prop where
  /-- The number of members is the one that the topology leads to, and so are the owners. -/
  desired_eq : desired =
    r.participant.pool.topology.count? (r.scene.found? r.replica r.participant.pool.topology)
  /-- A member lease of which no call failed is there, with its managed members right. It is owned
  by those that it was owned by, or by the current owners if it is new. -/
  member : ∀ ordinal < ordinals desired, r.Spares ordinal →
    ∃ l, r.whole.scene.store.leases.get? (r.memberKey ordinal) = some l ∧
      Pool.isManaged l (Role.member.labels r.participant.pool.name)
        (r.participant.pool.duration.get .member) = true ∧
      l.metadata.owners =
        (r.scene.store.leases.get? (r.memberKey ordinal)).elim r.owners (·.metadata.owners)
  /-- So it has the current owners exactly if it had them before, or is new. -/
  current_iff : ∀ ordinal < ordinals desired, r.Spares ordinal →
    ((∃ l ∈ r.whole.scene.store.leases.get? (r.memberKey ordinal),
        r.owners ⊆ l.metadata.owners) ↔
      ∀ old ∈ r.scene.store.leases.get? (r.memberKey ordinal), r.owners ⊆ old.metadata.owners)
  /-- A member lease of which a call failed stays as it was. -/
  spoilt : ∀ ordinal < ordinals desired, ¬ r.Spares ordinal →
    r.whole.scene.store.leases.get? (r.memberKey ordinal) =
      r.scene.store.leases.get? (r.memberKey ordinal)
  /-- Of no lease that exists the owners change. -/
  kept : ∀ k old, r.scene.store.leases.get? k = some old →
    ∃ l, r.whole.scene.store.leases.get? k = some l ∧ l.metadata.owners = old.metadata.owners

variable {r : Reconciliation} {desired : Option Int32}

/-- A reconciliation succeeds only for a leader that has read the number of members. -/
theorem exists_reads (led : r.whole.result? = some (.ok true)) : ∃ desired, r.Reads desired := by
  by_cases claimed : r.claim.result? = some (.ok true)
  · rw [whole_of_led claimed] at led
    obtain ⟨desired, counted⟩ := exists_ok_of_course_then led
    exact ⟨desired, claimed, counted⟩
  · rw [whole_of_not_led claimed] at led
    exact absurd led claimed

/-- A member lease of which no call failed has been tended. -/
theorem exists_tended (sound : r.scene.store.IsSound) (reads : r.Reads desired) {ordinal : Nat}
    (before : ordinal < ordinals desired) (spare : r.Spares ordinal) :
    ∃ l, r.whole.scene.store.leases.get? (r.memberKey ordinal) = some l ∧
      r.participant.pool.Tended .member (memberLeaseName r.participant.pool.name ordinal)
        r.owners (r.scene.store.leases.get? (r.memberKey ordinal)) l := by
  have ready := isReady_of_led sound reads.1
  rw [(whole_of_reads ready reads).2]
  exact (progress ready _).spared ordinal before spare

/-- A member lease of which a call failed has been left alone. -/
theorem eq_of_spoilt (sound : r.scene.store.IsSound) (reads : r.Reads desired) {ordinal : Nat}
    (before : ordinal < ordinals desired) (spoilt : ¬ r.Spares ordinal) :
    r.whole.scene.store.leases.get? (r.memberKey ordinal) =
      r.scene.store.leases.get? (r.memberKey ordinal) := by
  have ready := isReady_of_led sound reads.1
  rw [(whole_of_reads ready reads).2]
  exact (progress ready _).failed ordinal before spoilt

/-- All leases but the member leases that there should be are as they were after the claim. -/
theorem eq_of_not_member (sound : r.scene.store.IsSound) (reads : r.Reads desired) {k : LeaseKey}
    (other : ∀ ordinal < ordinals desired, k ≠ r.memberKey ordinal) :
    r.whole.scene.store.leases.get? k = r.claim.scene.store.leases.get? k := by
  have ready := isReady_of_led sound reads.1
  rw [(whole_of_reads ready reads).2, (progress ready _).others k other, ready.store]

/-- The owners of a lease that is tended are those that it had, or the current ones if it is
new. -/
theorem owners_of_tended {p : Pool} {role : Role} {name : String} {owners : List OwnerReference}
    {before : Option Lease} {l : Lease} (H : p.Tended role name owners before l) :
    l.metadata.owners = before.elim owners (·.metadata.owners) := by
  cases before with
  | none => rw [(H.new rfl).2, Option.elim_none]
  | some old => rw [(H.kept old rfl).2.2, Option.elim_some]

/-- Of no lease that exists the owners change. -/
theorem owners_kept (sound : r.scene.store.IsSound) (reads : r.Reads desired) {k : LeaseKey}
    {old : Lease} (found : r.scene.store.leases.get? k = some old) :
    ∃ l, r.whole.scene.store.leases.get? k = some l ∧
      l.metadata.owners = old.metadata.owners := by
  obtain ⟨now, claimed, l, takes⟩ := takesLead sound reads.1
  by_cases among : ∃ ordinal < ordinals desired, k = r.memberKey ordinal
  · obtain ⟨ordinal, before, rfl⟩ := among
    by_cases spare : r.Spares ordinal
    · obtain ⟨l, there, tended⟩ := exists_tended sound reads before spare
      refine ⟨l, there, ?_⟩
      rw [owners_of_tended tended, found, Option.elim_some]
    · exact ⟨old, (eq_of_spoilt sound reads before spare).trans found, rfl⟩
  · have same := eq_of_not_member sound reads
      fun ordinal before member => among ⟨ordinal, before, member⟩
    by_cases leader : k = r.leaderKey
    · subst leader
      refine ⟨l, same.trans takes.stored, ?_⟩
      rcases takes.origin with there | ⟨missing, -⟩
      · obtain rfl := Option.some.inj (found.symm.trans there)
        rw [takes.renewal.metadata]
      · cases found.symm.trans missing
    · exact ⟨old, (same.trans (takes.others k leader)).trans found, rfl⟩

/-- **A member lease has the current owners after a reconciliation exactly if it had them before,
or is new.** Whatever is stored and whichever calls fail, a reconciliation that succeeds creates
the member leases that are missing for the owners that the topology leads to, and leaves the owners
of every lease that exists alone. -/
theorem settlesOwners_of_led (sound : r.scene.store.IsSound)
    (led : r.whole.result? = some (.ok true)) :
    ∃ desired, r.Reads desired ∧ r.SettlesOwners desired := by
  obtain ⟨desired, reads⟩ := exists_reads led
  refine ⟨desired, reads, ?_⟩
  constructor
  case desired_eq => exact reads.counted sound
  case member =>
    intro ordinal before spare
    obtain ⟨l, there, tended⟩ := exists_tended sound reads before spare
    exact ⟨l, there, tended.isManaged, owners_of_tended tended⟩
  case current_iff =>
    intro ordinal before spare
    obtain ⟨l, there, tended⟩ := exists_tended sound reads before spare
    have owners := owners_of_tended tended
    cases found : r.scene.store.leases.get? (r.memberKey ordinal) with
    | none => simp [there, owners, found]
    | some old => simp [there, owners, found]
  case spoilt => exact fun ordinal before => eq_of_spoilt sound reads before
  case kept => exact fun k old => owners_kept sound reads

/-- A pod whose first member lease was created when nothing was known about its deployment. Now
the deployment is there, wants two members, and the pod reconciles. -/
def belated : Reconciliation :=
  let participant : Participant :=
    { pool :=
        { ns := "ns", name := "orders", duration := ⟨60, 30⟩
          topology := .deployment ⟨"ns", "web-0"⟩ }
      pod := "web-0", enabled := ⟨true, true⟩ }
  { participant, replica := 0
    failing := fun _ => none
    scene :=
      { store := (MemoryStore.put {}
          (participant.pool.newLease .member (memberLeaseName "orders" 0) [])).seedDeployment
            "ns" "web" 2 "web-0"
        clock := .startingAt (.utc ⟨0⟩)
        replicas :=
          [{ participant, check := { pool := "orders", identity := ⟨"ns", "web-0"⟩ } }] } }

theorem settlesOwners_belated :
    belated.scene.store.IsSound ∧ belated.whole.result? = some (.ok true) ∧
      ∃ desired, belated.Reads desired ∧ belated.SettlesOwners desired := by
  have sound : belated.scene.store.IsSound := (MemoryStore.isSound_of_empty rfl).put _
  have led : belated.whole.result? = some (.ok true) := by decide +kernel
  exact ⟨sound, led, settlesOwners_of_led sound led⟩

/-- **A lease that was created too early gets no owners.** The reconciliation succeeds and finds
the deployment, whose reference the second member lease gets. The first one stays without. -/
theorem orphaned_by_belated :
    belated.whole.result? = some (.ok true) ∧ belated.Reads (some 2) ∧
      belated.owners.map (·.name) = ["web"] ∧
      (∃ l ∈ belated.whole.scene.store.leases.get? (belated.memberKey 0),
        l.metadata.owners = []) ∧
      ∃ l ∈ belated.whole.scene.store.leases.get? (belated.memberKey 1),
        l.metadata.owners = belated.owners := by
  refine ⟨?_, ⟨?_, ?_⟩, ?_⟩ <;> decide +kernel

end Reconciliation

/-! ## One reconciliation after the other -/

namespace Scene

/-- Scenes that come after `s` by reconciliations that succeed. In between, workloads, clocks and
processes may change as they like, and leases as long as none is deleted and none gets other
owners. -/
inductive Cycles (s : Scene) : Scene → Prop
  | refl : Cycles s s
  | reconciled {r : Reconciliation} (before : Cycles s r.scene) (sound : r.scene.store.IsSound)
    (led : r.whole.result? = some (.ok true)) : Cycles s r.whole.scene
  | between {s' s'' : Scene} (before : Cycles s s')
    (kept : ∀ k l, s'.store.leases.get? k = some l →
      ∃ l', s''.store.leases.get? k = some l' ∧ l'.metadata.owners = l.metadata.owners) :
    Cycles s s''

/-- The owners of a lease that exists stay, however often the pool is reconciled. -/
theorem Cycles.owners {s s' : Scene} {k : LeaseKey} {old : Lease} (H : s.Cycles s')
    (found : s.store.leases.get? k = some old) :
    ∃ l, s'.store.leases.get? k = some l ∧ l.metadata.owners = old.metadata.owners := by
  induction H with
  | refl => exact ⟨old, found, rfl⟩
  | reconciled before sound led ih =>
    obtain ⟨l, there, same⟩ := ih
    obtain ⟨desired, reads⟩ := Reconciliation.exists_reads led
    obtain ⟨l', there', same'⟩ := Reconciliation.owners_kept sound reads there
    exact ⟨l', there', same'.trans same⟩
  | between before kept ih =>
    obtain ⟨l, there, same⟩ := ih
    obtain ⟨l', there', same'⟩ := kept _ l there
    exact ⟨l', there', same'.trans same⟩

end Scene

/-- **The owners of a member lease are those that were found when it was created**, whatever there
has been to be found in later reconciliations. -/
theorem Reconciliation.owners_of_cycles {r : Reconciliation} {desired : Option Int32}
    {ordinal : Nat} {s : Scene} (sound : r.scene.store.IsSound) (reads : r.Reads desired)
    (before : ordinal < ordinals desired) (spare : r.Spares ordinal)
    (missing : r.scene.store.leases.get? (r.memberKey ordinal) = none)
    (later : r.whole.scene.Cycles s) :
    ∃ l, s.store.leases.get? (r.memberKey ordinal) = some l ∧
      l.metadata.owners = r.owners := by
  obtain ⟨l, there, tended⟩ := exists_tended sound reads before spare
  obtain ⟨l', there', same⟩ := later.owners there
  refine ⟨l', there', same.trans ?_⟩
  rw [owners_of_tended tended, missing, Option.elim_none]

end LeasePool
