import LeasePool.Proofs.Lease.Selectors
import LeasePool.Proofs.Pool.Leadership

/-!
# What a leader makes of the member leases

A reconciliation, whatever is stored before it and whichever of its calls fail. It claims the
leader lease, reads how many members the pool should have, and makes sure of one member lease
after the other. The calls are numbered through, so those of one ordinal can be told from those of
another.
-/

namespace LeasePool

/-- How many ordinals there are from 0 on that are less than a number of members. -/
def ordinals (desired : Option Int32) : Nat := desired.elim 0 fun n => n.toInt.toNat

/-! ## One member lease after the other -/

namespace Participant

open Attempt Scene

/-- Makes sure of the member lease with an ordinal. -/
def ensureMember (p : Participant) (ordinal : Nat) : Attempt Lease :=
  p.pool.ensure .member (memberLeaseName p.pool.name ordinal)

variable {p : Participant} {i n ordinal : Nat} {failing : Failures} {s : Scene}
  {rest : List Nat}

theorem secures_ensureMember (sound : s.store.IsSound) (online : s.store.offline = false) :
    p.pool.Secures .member (memberLeaseName p.pool.name ordinal) i failing n s
      (s.course i failing n (p.ensureMember ordinal).run) :=
  Pool.secures_ensure sound online

/-- What fails for the first ordinal is of no consequence for the others. -/
theorem course_ensureMembers_cons (sound : s.store.IsSound) (online : s.store.offline = false) :
    s.course i failing n (p.ensureMembers (ordinal :: rest)).run =
      (s.course i failing n (p.ensureMember ordinal).run).scene.course i failing
        (s.course i failing n (p.ensureMember ordinal).run).calls
        (p.ensureMembers rest).run := by
  obtain ⟨result, ended⟩ : ∃ result, (s.course i failing n (p.ensureMember ordinal).run).result? =
      some result := (secures_ensureMember sound online).returns
  exact course_outcome ended

/-- Making sure of members always succeeds as a whole. -/
theorem result?_ensureMembers (sound : s.store.IsSound) (online : s.store.offline = false) :
    (s.course i failing n (p.ensureMembers rest).run).result? = some (.ok ()) := by
  induction rest generalizing n s with
  | nil => rfl
  | cons ordinal rest ih =>
    rw [course_ensureMembers_cons sound online]
    exact ih (isSound_course sound) (online_course online)

/-- The last one of some ordinals comes after all others. -/
theorem course_ensureMembers_concat (sound : s.store.IsSound) (online : s.store.offline = false) :
    s.course i failing n (p.ensureMembers (rest ++ [ordinal])).run =
      let before := s.course i failing n (p.ensureMembers rest).run
      let last := before.scene.course i failing before.calls (p.ensureMember ordinal).run
      ⟨last.scene, last.calls, some (.ok ())⟩ := by
  induction rest generalizing n s with
  | nil => exact course_ensureMembers_cons sound online
  | cons first rest ih =>
    rw [List.cons_append, course_ensureMembers_cons sound online,
      course_ensureMembers_cons sound online]
    exact ih (isSound_course sound) (online_course online)

/-- What a leader does with the number of members. -/
def serve (p : Participant) (desired : Option Int32) : Attempt Bool := do
  p.ensureMembers (List.range (ordinals desired))
  return true

/-- A leader serves the number of members that it has read. -/
theorem reconcile_eq : p.reconcile =
    p.pool.acquireLeader p.pod p.leaderLease >>= fun led =>
      if led then p.pool.topology.desiredReplicas? >>= p.serve else return false := by
  unfold reconcile
  refine bind_congr fun led => ?_
  cases led with
  | false => rfl
  | true =>
    refine bind_congr fun desired => ?_
    cases desired with
    | none => rfl
    | some replicas => rfl

end Participant

/-! ## Reconciliations -/

/-- A call to reconcile: by whom, in which process, in which scene, and which of the calls to the
store fail. -/
structure Reconciliation where
  participant : Participant
  replica : Nat
  failing : Failures
  scene : Scene

namespace Reconciliation

section

variable (r : Reconciliation)

/-- Where the leader lease is stored. -/
def leaderKey : LeaseKey := ⟨r.participant.pool.ns, r.participant.leaderLease⟩

/-- Where the member lease with an ordinal is stored. -/
def memberKey (ordinal : Nat) : LeaseKey :=
  ⟨r.participant.pool.ns, memberLeaseName r.participant.pool.name ordinal⟩

/-- The owners of new leases. -/
def owners : List OwnerReference :=
  (r.scene.found? r.replica r.participant.pool.topology).toList.map Topology.ownerOf

/-- How the reconciliation goes. -/
def whole : Course (Except PoolError Bool) :=
  r.scene.course r.replica r.failing 0 r.participant.reconcile.run

/-- How the claim on the leader lease goes, at the beginning. -/
def claim : Course (Except PoolError Bool) :=
  r.scene.course r.replica r.failing 0
    (r.participant.pool.acquireLeader r.participant.pod r.participant.leaderLease).run

/-- How the number of members is read, after the claim. -/
def count : Course (Except PoolError (Option Int32)) :=
  r.claim.scene.course r.replica r.failing r.claim.calls
    r.participant.pool.topology.desiredReplicas?.run

/-- How the first ordinals are gone through, after the number of members has been read. -/
def members (ordinals : Nat) : Course (Except PoolError Unit) :=
  r.count.scene.course r.replica r.failing r.count.calls
    (r.participant.ensureMembers (List.range ordinals)).run

/-- The leader lease is acquired, and the number of members that the pool should have is read. -/
def Reads (desired : Option Int32) : Prop :=
  r.claim.result? = some (.ok true) ∧ r.count.result? = some (.ok desired)

/-- None of the calls for an ordinal fails: those after the calls for the ordinals before it. -/
def Spares (ordinal : Nat) : Prop :=
  r.failing.Spare (r.members ordinal).calls (r.members (ordinal + 1)).calls

instance (ordinal : Nat) : Decidable (r.Spares ordinal) :=
  inferInstanceAs (Decidable (r.failing.Spare _ _))

/-- What can be relied on in a reconciliation, whatever is stored and whichever calls fail. -/
structure IsReliable : Prop where
  /-- There is an answer, if the leader lease need not be taken from somebody or that can be
  counted. -/
  returns : (∀ l, r.scene.store.leases.get? r.leaderKey = some l →
    l.admits r.participant.pod = true) → ∃ result, r.whole.result? = some result
  /-- Who does not acquire the leader lease says so and touches no other lease. -/
  gated : r.claim.result? ≠ some (.ok true) → r.whole.result? = r.claim.result? ∧
    ∀ k ≠ r.leaderKey, r.whole.scene.store.leases.get? k = r.scene.store.leases.get? k
  /-- Who does, and reads the number of members, has succeeded, whatever fails after that. -/
  led : ∀ desired, r.Reads desired → r.whole.result? = some (.ok true)
  /-- An ordinal of which no call fails has a lease that is tended. What becomes of it depends on
  the scene at the beginning alone. -/
  spared : ∀ desired, r.Reads desired → ∀ ordinal < ordinals desired, r.Spares ordinal →
    ∃ l, r.whole.scene.store.leases.get? (r.memberKey ordinal) = some l ∧
      r.participant.pool.Tended .member (memberLeaseName r.participant.pool.name ordinal) r.owners
        (r.scene.store.leases.get? (r.memberKey ordinal)) l
  /-- The lease of an ordinal of which a call fails stays as it is. -/
  failed : ∀ desired, r.Reads desired → ∀ ordinal < ordinals desired, ¬ r.Spares ordinal →
    r.whole.scene.store.leases.get? (r.memberKey ordinal) =
      r.scene.store.leases.get? (r.memberKey ordinal)
  /-- Whatever fails elsewhere, an ordinal of which no call fails gets the same lease, but for the
  version, and the identifier if it is new. -/
  isolated : ∀ failing desired desired', r.Reads desired →
    Reads { r with failing } desired' → ∀ ordinal < ordinals desired, r.Spares ordinal →
    Spares { r with failing } ordinal →
    ∃ l l', r.whole.scene.store.leases.get? (r.memberKey ordinal) = some l ∧
      (whole { r with failing }).scene.store.leases.get? (r.memberKey ordinal) = some l' ∧
      l'.claim = l.claim ∧
      l'.metadata =
        { l.metadata with uid := l'.metadata.uid, version := l'.metadata.version }
  /-- No lease is written but the leader lease and the member leases that there should be. -/
  others : ∀ k ≠ r.leaderKey,
    (∀ desired, r.Reads desired → ∀ ordinal < ordinals desired, k ≠ r.memberKey ordinal) →
    r.whole.scene.store.leases.get? k = r.scene.store.leases.get? k
  /-- No lease is deleted. -/
  kept : ∀ k, (r.scene.store.leases.get? k).isSome → (r.whole.scene.store.leases.get? k).isSome
  /-- If no ordinal has failed and nothing has changed, to reconcile once more is to renew the
  claim on the leader lease and nothing else. -/
  idempotent : ∀ desired, r.Reads desired → (∀ ordinal < ordinals desired, r.Spares ordinal) →
    ∀ scene now, scene.store = r.whole.scene.store → scene.replicas = r.whole.scene.replicas →
    scene.now? = some now →
    (∀ l, scene.store.leases.get? r.leaderKey = some l → l.expiry ≠ .outOfRange) →
    ∃ l, scene.store.leases.get? r.leaderKey = some l ∧
      (whole { r with scene, failing := fun _ => none }).result? = some (.ok true) ∧
      (whole { r with scene, failing := fun _ => none }).scene.store =
        scene.store.write (l.edit (.claim r.participant.pod (.utc now)))

end

variable {r : Reconciliation} {t : Instant} {desired : Option Int32}

theorem memberKey_injective : r.memberKey.Injective := by
  intro i j same
  exact memberLeaseName_injective (congrArg LeaseKey.name same)

theorem memberKey_ne_leaderKey {ordinal : Nat} : r.memberKey ordinal ≠ r.leaderKey := by
  intro same
  exact leaderLeaseName_ne_memberLeaseName (congrArg LeaseKey.name same).symm

/-! ## The stages -/

/-- A reconciliation that begins where all stored leases lie under their own keys, as they do
whatever a store has been asked before, the clock shows a time, and the leader lease ends within
the calendar. -/
structure IsRegular (r : Reconciliation) (now : Instant) : Prop where
  sound : r.scene.store.IsSound
  now : r.scene.now? = some now
  ends : ∀ l, r.scene.store.leases.get? r.leaderKey = some l → l.expiry ≠ .outOfRange

namespace IsRegular

variable (R : r.IsRegular t)
include R

theorem contends : r.participant.pool.Contends r.participant.pod r.participant.leaderLease
    r.replica r.scene r.claim :=
  Pool.contends_acquireLeader R.now R.sound R.ends

end IsRegular

/-- Who has not acquired the leader lease does nothing more. -/
theorem whole_of_not_led (lost : r.claim.result? ≠ some (.ok true)) : r.whole = r.claim := by
  have same : r.claim = ⟨r.claim.scene, r.claim.calls, r.claim.result?⟩ := rfl
  rw [whole, Participant.reconcile_eq, same]
  rcases ended : r.claim.result? with _ | e | _ | _
  · exact Scene.course_then_of_none ended
  · exact Scene.course_then_of_error ended
  · exact Scene.course_then_of_ok ended
  · contradiction

/-- Who has acquired the leader lease goes on with the number of members. -/
theorem whole_of_led (led : r.claim.result? = some (.ok true)) :
    r.whole = r.claim.scene.course r.replica r.failing r.claim.calls
      (r.participant.pool.topology.desiredReplicas? >>= r.participant.serve).run := by
  rw [whole, Participant.reconcile_eq]
  exact Scene.course_then_of_ok led

/-- A leader that cannot read the number of members does nothing more. -/
theorem whole_of_unread {e : PoolError} (led : r.claim.result? = some (.ok true))
    (unread : r.count.result? = some (.error e)) :
    r.whole = ⟨r.count.scene, r.count.calls, some (.error e)⟩ :=
  (whole_of_led led).trans (Scene.course_then_of_error unread)

/-- How the lead was taken. -/
theorem takesLead (sound : r.scene.store.IsSound) (led : r.claim.result? = some (.ok true)) :
    ∃ now old new, r.participant.pool.TakesLead r.participant.pod r.participant.leaderLease
      r.replica now r.scene r.claim.scene old new := by
  obtain ⟨now, old, new, -, takes⟩ := Pool.takesLead_acquireLeader sound led
  exact ⟨now, old, new, takes⟩

/-- How the number of members is read by a leader. -/
theorem looks_count (sound : r.scene.store.IsSound) (led : r.claim.result? = some (.ok true)) :
    r.claim.scene.Looks r.replica r.participant.pool.topology r.failing r.claim.calls
      (r.participant.pool.topology.count? (r.scene.found? r.replica r.participant.pool.topology))
      r.count := by
  obtain ⟨now, old, new, takes⟩ := takesLead sound led
  rw [← takes.recalls.found]
  exact Topology.looks_desiredReplicas? takes.online

/-- The number of members is the one that there is to be found. -/
theorem Reads.counted (sound : r.scene.store.IsSound) (reads : r.Reads desired) :
    desired =
      r.participant.pool.topology.count?
        (r.scene.found? r.replica r.participant.pool.topology) := by
  rcases (looks_count sound reads.1).result with ⟨found, -⟩ | ⟨⟨e, failed⟩, -⟩
  · have same := reads.2.symm.trans found
    simpa using same
  · have contrary := reads.2.symm.trans failed
    simp at contrary

theorem Reads.desired_eq (R : r.IsRegular t) (reads : r.Reads desired) :
    desired =
      r.participant.pool.topology.count?
        (r.scene.found? r.replica r.participant.pool.topology) :=
  reads.counted R.sound

/-- What is there when the number of members has been read: all leases but the leader lease are as
they were. -/
structure IsReady (r : Reconciliation) : Prop where
  sound : r.count.scene.store.IsSound
  online : r.count.scene.store.offline = false
  recalls : r.scene.Recalls r.replica r.participant.pool.topology r.count.scene
  store : r.count.scene.store = r.claim.scene.store
  others : ∀ k ≠ r.leaderKey, r.count.scene.store.leases.get? k = r.scene.store.leases.get? k

/-- A leader is ready, whatever the leader lease was like. -/
theorem isReady_of_led (sound : r.scene.store.IsSound)
    (led : r.claim.result? = some (.ok true)) : r.IsReady := by
  obtain ⟨now, old, new, takes⟩ := takesLead sound led
  have looks := looks_count sound led
  constructor
  case sound => exact Scene.isSound_course (Scene.isSound_course sound)
  case online => exact Scene.online_course takes.online
  case recalls => exact takes.recalls.trans looks.recalls
  case store => exact looks.store
  case others =>
    intro k other
    rw [looks.store]
    exact takes.others k other

theorem isReady (R : r.IsRegular t) (led : r.claim.result? = some (.ok true)) : r.IsReady :=
  isReady_of_led R.sound led

/-- A leader that has read the number of members has done its work when all ordinals have been
gone through. -/
theorem whole_of_reads (ready : r.IsReady) (reads : r.Reads desired) :
    r.whole.result? = some (.ok true) ∧
      r.whole.scene = (r.members (ordinals desired)).scene := by
  have done : (r.members (ordinals desired)).result? = some (.ok ()) :=
    Participant.result?_ensureMembers ready.sound ready.online
  have served : r.whole = ⟨(r.members (ordinals desired)).scene,
      (r.members (ordinals desired)).calls, some (.ok true)⟩ :=
    (whole_of_led reads.1).trans
      ((Scene.course_then_of_ok reads.2).trans (Scene.course_then_of_ok done))
  rw [served]
  exact ⟨rfl, rfl⟩

/-! ## The ordinals -/

/-- The next ordinal. -/
theorem members_succ (ready : r.IsReady) (ordinal : Nat) :
    r.members (ordinal + 1) =
      let last := (r.members ordinal).scene.course r.replica r.failing (r.members ordinal).calls
        (r.participant.ensureMember ordinal).run
      ⟨last.scene, last.calls, some (.ok ())⟩ := by
  rw [members, List.range_succ]
  exact Participant.course_ensureMembers_concat ready.sound ready.online

/-- How the next ordinal is gone through. -/
theorem secures_members (ready : r.IsReady) (ordinal : Nat) :
    r.participant.pool.Secures .member (memberLeaseName r.participant.pool.name ordinal)
      r.replica r.failing (r.members ordinal).calls (r.members ordinal).scene
      ⟨(r.members (ordinal + 1)).scene, (r.members (ordinal + 1)).calls,
        ((r.members ordinal).scene.course r.replica r.failing (r.members ordinal).calls
          (r.participant.ensureMember ordinal).run).result?⟩ := by
  rw [members_succ ready]
  exact Participant.secures_ensureMember (Scene.isSound_course ready.sound)
    (Scene.online_course ready.online)

/-- What has happened when the first ordinals have been gone through. -/
structure Progress (r : Reconciliation) (ordinals : Nat) : Prop where
  recalls : r.scene.Recalls r.replica r.participant.pool.topology (r.members ordinals).scene
  spared : ∀ ordinal < ordinals, r.Spares ordinal →
    ∃ l, (r.members ordinals).scene.store.leases.get? (r.memberKey ordinal) = some l ∧
      r.participant.pool.Tended .member (memberLeaseName r.participant.pool.name ordinal) r.owners
        (r.scene.store.leases.get? (r.memberKey ordinal)) l
  failed : ∀ ordinal < ordinals, ¬ r.Spares ordinal →
    (r.members ordinals).scene.store.leases.get? (r.memberKey ordinal) =
      r.scene.store.leases.get? (r.memberKey ordinal)
  others : ∀ k, (∀ ordinal < ordinals, k ≠ r.memberKey ordinal) →
    (r.members ordinals).scene.store.leases.get? k = r.count.scene.store.leases.get? k

/-- Before an ordinal has been gone through, its lease is what it was at the beginning. -/
theorem Progress.pending {n ordinal : Nat} (ready : r.IsReady) (H : r.Progress n)
    (later : n ≤ ordinal) :
    (r.members n).scene.store.leases.get? (r.memberKey ordinal) =
      r.scene.store.leases.get? (r.memberKey ordinal) := by
  rw [H.others]
  · exact ready.others _ memberKey_ne_leaderKey
  · intro earlier before same
    exact absurd (memberKey_injective same) (by omega)

/-- **The next ordinal** is tended or left alone, and the others keep what they have. -/
theorem Progress.succ {n : Nat} (ready : r.IsReady) (H : r.Progress n) : r.Progress (n + 1) := by
  have sound : (r.members n).scene.store.IsSound := Scene.isSound_course ready.sound
  have secures := secures_members ready n
  have others : ∀ k, k ≠ r.memberKey n → (r.members (n + 1)).scene.store.leases.get? k =
      (r.members n).scene.store.leases.get? k := fun k other => secures.others sound other
  have earlier : ∀ ordinal < n, r.memberKey ordinal ≠ r.memberKey n :=
    fun ordinal before same => absurd (memberKey_injective same) (by omega)
  refine ⟨H.recalls.trans secures.recalls, ?_, ?_, ?_⟩
  · intro ordinal before spare
    rcases Nat.lt_succ_iff_lt_or_eq.1 before with before | rfl
    · obtain ⟨l, there, tended⟩ := H.spared ordinal before spare
      exact ⟨l, (others _ (earlier ordinal before)).trans there, tended⟩
    · obtain ⟨l, there, tended⟩ := (secures.spared spare).tended sound
      rw [H.recalls.found] at tended
      refine ⟨l, there, ?_⟩
      rw [← H.pending ready (Nat.le_refl _)]
      exact tended
  · intro ordinal before spoilt
    rcases Nat.lt_succ_iff_lt_or_eq.1 before with before | rfl
    · exact (others _ (earlier ordinal before)).trans (H.failed ordinal before spoilt)
    · have same : (r.members (ordinal + 1)).scene.store = (r.members ordinal).scene.store :=
        secures.failed spoilt
      rw [same]
      exact H.pending ready (Nat.le_refl _)
  · intro k distinct
    rw [others k (distinct n (Nat.lt_succ_self n))]
    exact H.others k fun ordinal before => distinct ordinal (Nat.lt_succ_of_lt before)

/-- **What has happened when the first ordinals have been gone through.** -/
theorem progress (ready : r.IsReady) (n : Nat) : r.Progress n := by
  induction n with
  | zero =>
    exact ⟨ready.recalls, fun _ before => absurd before (Nat.not_lt_zero _),
      fun _ before => absurd before (Nat.not_lt_zero _), fun _ _ => rfl⟩
  | succ n ih => exact ih.succ ready

/-! ## The whole -/

/-- A leader that has read the number of members has gone through all ordinals. -/
theorem progress_whole (R : r.IsRegular t) (reads : r.Reads desired) :
    r.IsReady ∧ r.whole.scene = (r.members (ordinals desired)).scene ∧
      r.Progress (ordinals desired) :=
  have ready := isReady R reads.1
  ⟨ready, (whole_of_reads ready reads).2, progress ready _⟩

/-- A leader cannot read the number of members, or it reads it. -/
theorem unread_or_reads (R : r.IsRegular t) (led : r.claim.result? = some (.ok true)) :
    (∃ e, r.count.result? = some (.error e)) ∨ ∃ desired, r.Reads desired := by
  rcases (looks_count R.sound led).result with ⟨found, -⟩ | ⟨unread, -⟩
  · exact .inr ⟨_, led, found⟩
  · exact .inl unread

theorem returns_whole (R : r.IsRegular t)
    (counts : ∀ l, r.scene.store.leases.get? r.leaderKey = some l →
      l.admits r.participant.pod = true) :
    ∃ result, r.whole.result? = some result := by
  by_cases led : r.claim.result? = some (.ok true)
  · rcases unread_or_reads R led with ⟨e, unread⟩ | ⟨desired, reads⟩
    · exact ⟨_, congrArg Course.result? (whole_of_unread led unread)⟩
    · exact ⟨_, (whole_of_reads (isReady R led) reads).1⟩
  · rw [whole_of_not_led led]
    exact R.contends.returns counts

theorem gated_whole (R : r.IsRegular t) (lost : r.claim.result? ≠ some (.ok true)) :
    r.whole.result? = r.claim.result? ∧
      ∀ k ≠ r.leaderKey, r.whole.scene.store.leases.get? k = r.scene.store.leases.get? k := by
  rw [whole_of_not_led lost]
  exact ⟨rfl, R.contends.others⟩

theorem others_whole (R : r.IsRegular t) {k : LeaseKey} (other : k ≠ r.leaderKey)
    (distinct : ∀ desired, r.Reads desired → ∀ ordinal < ordinals desired,
      k ≠ r.memberKey ordinal) :
    r.whole.scene.store.leases.get? k = r.scene.store.leases.get? k := by
  by_cases led : r.claim.result? = some (.ok true)
  · have ready := isReady R led
    rcases unread_or_reads R led with ⟨e, unread⟩ | ⟨desired, reads⟩
    · rw [whole_of_unread led unread]
      exact ready.others k other
    · obtain ⟨-, same, progress⟩ := progress_whole R reads
      rw [same, progress.others k (distinct desired reads)]
      exact ready.others k other
  · exact (gated_whole R led).2 k other

/-- A second reconciliation, with nothing changed in between and all calls through, finds nothing
to correct about the members. -/
theorem members_again (ready : r.IsReady) (through : ∀ k, r.failing k = none) {n : Nat}
    (right : ∀ ordinal < n, ∃ l, r.scene.store.leases.get? (r.memberKey ordinal) = some l ∧
      Pool.isManaged l (Role.member.labels r.participant.pool.name)
        (r.participant.pool.duration.get .member) = true) :
    (r.members n).scene.store = r.count.scene.store := by
  induction n with
  | zero => rfl
  | succ n ih =>
    rw [← ih fun ordinal before => right ordinal (Nat.lt_succ_of_lt before)]
    obtain ⟨l, there, managed⟩ := right n (Nat.lt_succ_self n)
    rw [← (progress ready n).pending ready (Nat.le_refl n)] at there
    have ensures := (secures_members ready n).spared fun k _ _ => through k
    exact ensures.eq_of_isManaged there managed

/-- **To reconcile once more** is to renew the claim on the leader lease. -/
theorem idempotent_whole (R : r.IsRegular t) (reads : r.Reads desired)
    (spare : ∀ ordinal < ordinals desired, r.Spares ordinal) {scene : Scene} {now : Instant}
    (store : scene.store = r.whole.scene.store)
    (replicas : scene.replicas = r.whole.scene.replicas)
    (again : IsRegular { r with scene, failing := fun _ => none } now) :
    ∃ l, scene.store.leases.get? r.leaderKey = some l ∧
      (whole { r with scene, failing := fun _ => none }).result? = some (.ok true) ∧
      (whole { r with scene, failing := fun _ => none }).scene.store =
        scene.store.write (l.edit (.claim r.participant.pod (.utc now))) := by
  obtain ⟨ready, same, progress⟩ := progress_whole R reads
  rw [same] at store replicas
  have online : scene.store.offline = false := store ▸ Scene.online_course ready.online
  -- The claim is renewed, for the leader lease is still held.
  obtain ⟨-, l, there, holds⟩ := R.contends.acquired reads.1
  have here : scene.store.leases.get? r.leaderKey = some l := by
    rw [store, progress.others _ fun _ _ => memberKey_ne_leaderKey.symm, ready.store]
    exact there
  have claimed : claim { r with scene, failing := fun _ => none } = _ :=
    Pool.course_acquireLeader online again.now again.sound here
      (Lease.availableTo?_of_holder holds (again.ends l here))
      (Lease.admits_of_holder fun q held => Option.some.inj (held.symm.trans holds)) fun _ => rfl
  have led := congrArg Course.result? claimed
  -- The number of members is the same.
  have found : scene.found? r.replica r.participant.pool.topology =
      r.scene.found? r.replica r.participant.pool.topology := by
    rw [← progress.recalls.found, Scene.found?, Scene.found?, Scene.remembered?,
      Scene.remembered?, store, replicas]
  have reads' : Reads { r with scene, failing := fun _ => none } desired := by
    rcases (looks_count again.sound led).result with ⟨counted, -⟩ | ⟨-, spoilt⟩
    · refine ⟨led, counted.trans ?_⟩
      rw [reads.desired_eq R, ← found]
    · exact absurd (fun k _ _ => rfl) spoilt
  -- The members are in order.
  have ready' := isReady again led
  have right : ∀ ordinal < ordinals desired,
      ∃ l, scene.store.leases.get? (r.memberKey ordinal) = some l ∧
        Pool.isManaged l (Role.member.labels r.participant.pool.name)
          (r.participant.pool.duration.get .member) = true := by
    intro ordinal before
    obtain ⟨m, member, tended⟩ := progress.spared ordinal before (spare ordinal before)
    exact ⟨m, store ▸ member, tended.isManaged⟩
  obtain ⟨result, final⟩ := whole_of_reads ready' reads'
  refine ⟨l, here, result, ?_⟩
  rw [final, members_again ready' (fun _ => rfl) right, ready'.store, claimed]

/-- **What can be relied on in every reconciliation.** -/
theorem isReliable (R : r.IsRegular t) : r.IsReliable where
  returns counts := returns_whole R counts
  gated := gated_whole R
  led desired reads := (whole_of_reads (isReady R reads.1) reads).1
  spared desired reads ordinal before spare := by
    obtain ⟨-, same, progress⟩ := progress_whole R reads
    rw [same]
    exact progress.spared ordinal before spare
  failed desired reads ordinal before spoilt := by
    obtain ⟨-, same, progress⟩ := progress_whole R reads
    rw [same]
    exact progress.failed ordinal before spoilt
  isolated failing desired desired' reads reads' ordinal before spare spare' := by
    have R' : IsRegular { r with failing } t := ⟨R.sound, R.now, R.ends⟩
    obtain ⟨-, same, progress⟩ := progress_whole R reads
    obtain ⟨-, same', progress'⟩ := progress_whole R' reads'
    have count : desired' = desired := (reads'.desired_eq R').trans (reads.desired_eq R).symm
    obtain ⟨l, there, tended⟩ := progress.spared ordinal before spare
    obtain ⟨l', there', tended'⟩ := progress'.spared ordinal (count ▸ before) spare'
    rw [same, same']
    exact ⟨l, l', there, there', tended.agree tended'⟩
  others k other distinct := others_whole R other distinct
  kept k := Scene.isSome_course
  idempotent desired reads spare scene now store replicas shows ends := by
    refine idempotent_whole R reads spare store replicas ⟨?_, shows, ends⟩
    exact store ▸ Scene.isSound_course R.sound

/-- A member lease that somebody holds and that somebody else has changed. -/
def tampered : Lease :=
  { metadata :=
      { name := memberLeaseName "orders" 0, ns := "ns"
        labels := .ofList [("team", "payments"), (poolLabel, "returns")] }
    claim := { holder := some "web-1", duration := some 99, transitions := some 4 } }

/-- A pod of a deployment that wants three members reconciles. There is one member lease, nothing
can be read about the second, and there is no leader lease yet. -/
def faltering : Reconciliation :=
  let participant : Participant :=
    { pool :=
        { ns := "ns", name := "orders", duration := ⟨60, 30⟩
          topology := .deployment ⟨"ns", "web-0"⟩ }
      pod := "web-0", enabled := ⟨true, true⟩ }
  { participant, replica := 0
    failing := fun n => if n = 10 then some (.unavailable .unanswered) else none
    scene :=
      { store := (MemoryStore.put {} tampered).seedDeployment "ns" "web" 3 "web-0"
        clock := .startingAt (.utc ⟨0⟩)
        replicas :=
          [{ participant, check := { pool := "orders", identity := ⟨"ns", "web-0"⟩ } }] } }

theorem isReliable_faltering : faltering.IsRegular ⟨0⟩ ∧ faltering.Reads (some 3) ∧
    faltering.Spares 0 ∧ ¬ faltering.Spares 1 ∧ faltering.Spares 2 ∧ faltering.IsReliable := by
  have regular : faltering.IsRegular ⟨0⟩ := by
    refine ⟨(MemoryStore.isSound_of_empty rfl).put tampered, rfl, fun l there => ?_⟩
    have missing : faltering.scene.store.leases.get? faltering.leaderKey = none := by
      decide +kernel
    rw [missing] at there
    contradiction
  exact ⟨regular, ⟨by decide +kernel, by decide +kernel⟩, by decide +kernel, by decide +kernel,
    by decide +kernel, isReliable regular⟩

end Reconciliation

end LeasePool
