import LeasePool.Proofs.Pool.LookUps

/-!
# Leases that are tended

What comes of making sure of a lease, and of claiming the leader lease, when some of the calls
fail and nobody else does anything in between. A call that fails spoils the attempt as a whole, so
there are two ways to go: with every call through, the lease is there with its managed members
right, by one write at most; with a call that fails, nothing is written.

## Main definitions

* `Pool.Tended`: what a lease is that has been tended, against what was there before.
* `Pool.Ensures`: what happens to the store on the way.
* `Pool.Secures`, `Pool.Contends`: how the two attempts go.

## Main statements

* `Pool.Ensures.tended`, `Pool.Ensures.get?_of_ne`: one lease is tended, and no other is touched.
* `Pool.Tended.isManaged`: there is nothing left to correct about a lease that has been tended.
* `Pool.secures_ensure`: a lease is tended, unless one of the calls fails.
* `Pool.contends_acquireLeader`: who leads holds the leader lease, and no other lease is touched.
-/

namespace LeasePool

/-- **A lease is available to its holder**, if its claim ends within the calendar. -/
theorem Lease.availableTo?_of_holder {l : Lease} {holder : String} {t : Instant}
    (holds : l.claim.holder = some holder) (ends : l.expiry ≠ .outOfRange) :
    l.availableTo? holder t = some true := by
  simp only [availableTo?, holder?, holds, Option.filter_some]
  split
  · rfl
  · rename_i same held
    obtain rfl : holder = same := by
      split at held
      · exact Option.some.inj held
      · contradiction
    cases ending : l.expiry with
    | outOfRange => contradiction
    | unlimited => rfl
    | «at» time => simp

namespace Pool

open Attempt Scene

/-- A lease that has been tended: it has the duration and all labels that this library manages.
Of a lease that was there before, all else is kept; if there was none, the lease is unclaimed and
`owners` own it. -/
structure Tended (p : Pool) (role : Role) (name : String) (owners : List OwnerReference)
    (before : Option Lease) (l : Lease) : Prop where
  duration : l.claim.duration = some (p.duration.get role)
  labels : ∀ k v, (role.labels p.name).get? k = some v → l.metadata.labels.get? k = some v
  kept : ∀ old, before = some old →
    (∀ k, (role.labels p.name).get? k = none →
      l.metadata.labels.get? k = old.metadata.labels.get? k) ∧
    l.claim = { old.claim with duration := l.claim.duration } ∧
    l.metadata =
      { old.metadata with labels := l.metadata.labels, version := l.metadata.version }
  new : before = none →
    l.claim = { duration := l.claim.duration } ∧
    l.metadata =
      { name, ns := p.ns, owners, labels := role.labels p.name
        uid := l.metadata.uid, version := l.metadata.version }

/-- What making sure of a lease does to a store if all calls get through. -/
inductive Ensures (p : Pool) (role : Role) (name : String) (owners : List OwnerReference)
    (s : MemoryStore) : MemoryStore → Prop
  | managed {l : Lease} (found : s.lease? p.ns name = some l)
    (right : isManaged l (role.labels p.name) (p.duration.get role) = true) :
    Ensures p role name owners s s
  | corrected {l : Lease} (found : s.lease? p.ns name = some l)
    (wrong : ¬ isManaged l (role.labels p.name) (p.duration.get role) = true) :
    Ensures p role name owners s
      (s.write (l.edit (.manage (role.labels p.name) (p.duration.get role))))
  | created (missing : s.lease? p.ns name = none) :
    Ensures p role name owners s (s.write (s.created (p.newLease role name owners)))

variable {p : Pool} {role : Role} {name holder : String} {owners : List OwnerReference}
  {store store' : MemoryStore} {l : Lease}

/-! ## Leases that have been tended -/

/-- There is nothing to correct about a lease that has all that is managed. -/
theorem isManaged_iff {labels : Labels} {duration : Int32} :
    isManaged l labels duration = true ↔
      l.claim.duration = some duration ∧
        ∀ k v, labels.get? k = some v → l.metadata.labels.get? k = some v := by
  have same : l.metadata.labels.override labels = l.metadata.labels ↔
      ∀ k v, labels.get? k = some v → l.metadata.labels.get? k = some v := by
    constructor
    · intro same k v here
      rw [← same, Table.get?_override, here]
      rfl
    · intro has
      refine Table.ext_get? fun k => ?_
      rw [Table.get?_override]
      cases here : labels.get? k with
      | none => rfl
      | some v => exact (has k v here).symm
  obtain ⟨⟨_, _, _, _, labels', _, _⟩, ⟨_, duration', _, _, _, _⟩⟩ := l
  simp only [isManaged, Lease.edit, decide_eq_true_eq, Lease.mk.injEq, Metadata.mk.injEq,
    Claim.mk.injEq, true_and, and_true] at same ⊢
  rw [same, and_comm, @eq_comm _ (some duration)]

theorem Tended.isManaged {before : Option Lease} (H : p.Tended role name owners before l) :
    isManaged l (role.labels p.name) (p.duration.get role) = true :=
  isManaged_iff.2 ⟨H.duration, H.labels⟩

/-- **Two leases that have been tended** from the same beginning are the same but for the version,
and for the identifier that the store gives to a new lease. -/
theorem Tended.agree {before : Option Lease} {l' : Lease}
    (H : p.Tended role name owners before l) (H' : p.Tended role name owners before l') :
    l'.claim = l.claim ∧
      l'.metadata = { l.metadata with uid := l'.metadata.uid, version := l'.metadata.version } := by
  have duration : l'.claim.duration = l.claim.duration := H'.duration.trans H.duration.symm
  cases before with
  | none =>
    obtain ⟨claim, metadata⟩ := H.new rfl
    obtain ⟨claim', metadata'⟩ := H'.new rfl
    refine ⟨by rw [claim', claim, duration], ?_⟩
    rw [metadata', metadata]
  | some old =>
    obtain ⟨foreign, claim, metadata⟩ := H.kept old rfl
    obtain ⟨foreign', claim', metadata'⟩ := H'.kept old rfl
    refine ⟨by rw [claim', claim, duration], ?_⟩
    have labels : l'.metadata.labels = l.metadata.labels := by
      refine Table.ext_get? fun k => ?_
      cases here : (role.labels p.name).get? k with
      | none => rw [foreign k here, foreign' k here]
      | some v => rw [H.labels k v here, H'.labels k v here]
    rw [metadata', metadata, labels]

/-! ## Making sure of a lease -/

section

variable (H : p.Ensures role name owners store store')
include H

theorem Ensures.get?_of_ne {k : LeaseKey} (sound : store.IsSound) (other : k ≠ ⟨p.ns, name⟩) :
    store'.leases.get? k = store.leases.get? k := by
  cases H with
  | managed => rfl
  | corrected found =>
    rw [MemoryStore.get?_write, Lease.key_edit, (sound _ _ found).1, if_neg other]
  | created =>
    rw [MemoryStore.get?_write]
    exact if_neg other

/-- **Making sure of a lease** tends it. -/
theorem Ensures.tended (sound : store.IsSound) :
    ∃ l, store'.lease? p.ns name = some l ∧
      p.Tended role name owners (store.lease? p.ns name) l := by
  cases H with
  | managed found right =>
    obtain ⟨duration, labels⟩ := isManaged_iff.1 right
    refine ⟨_, found, duration, labels, ?_, ?_⟩
    · rintro old same
      obtain rfl := Option.some.inj (found.symm.trans same)
      exact ⟨fun k _ => rfl, rfl, rfl⟩
    · intro missing
      rw [found] at missing
      contradiction
  | @corrected l found =>
    refine ⟨_, MemoryStore.get?_write.trans (if_pos ?_), rfl, ?_, ?_, ?_⟩
    · rw [Lease.key_edit, (sound _ _ found).1]
    · intro k v managed
      change (l.metadata.labels.override (role.labels p.name)).get? k = some v
      rw [Table.get?_override, managed]
      rfl
    · rintro old same
      obtain rfl := Option.some.inj (found.symm.trans same)
      refine ⟨fun k foreign => ?_, rfl, rfl⟩
      change (l.metadata.labels.override (role.labels p.name)).get? k = _
      rw [Table.get?_override, foreign]
      rfl
    · intro missing
      rw [found] at missing
      contradiction
  | created missing =>
    refine ⟨_, MemoryStore.get?_write.trans (if_pos rfl), rfl, fun k v managed => managed, ?_, ?_⟩
    · intro old same
      rw [missing] at same
      contradiction
    · exact fun _ => ⟨rfl, rfl⟩

/-- A lease about which there is nothing to correct is left alone. -/
theorem Ensures.eq_of_isManaged (found : store.lease? p.ns name = some l)
    (right : isManaged l (role.labels p.name) (p.duration.get role) = true) : store' = store := by
  cases H with
  | managed => rfl
  | corrected found' wrong =>
    obtain rfl := Option.some.inj (found.symm.trans found')
    contradiction
  | created missing =>
    rw [found] at missing
    contradiction

end

/-- How an attempt to make sure of a lease goes that begins with call number `n`. -/
structure Secures (p : Pool) (role : Role) (name : String) (i : Nat) (failing : Failures) (n : Nat)
    (s : Scene) (o : Course (Except PoolError Lease)) : Prop where
  recalls : s.Recalls i p.topology o.scene
  returns : ∃ result, o.result? = some result
  read : ∀ l, o.result? = some (.ok l) → o.scene.store.lease? p.ns name = some l
  spared : failing.Spare n o.calls →
    p.Ensures role name ((s.found? i p.topology).toList.map Topology.ownerOf) s.store
      o.scene.store
  failed : ¬ failing.Spare n o.calls → o.scene.store = s.store

variable {i m n : Nat} {failing : Failures} {s s' : Scene} {t : Instant}

/-- An attempt that has failed with an error and written nothing. -/
theorem secures_of_error {e : PoolError} (recalls : s.Recalls i p.topology s')
    (store : s'.store = s.store) (spoilt : ¬ failing.Spare n m) :
    p.Secures role name i failing n s ⟨s', m, some (.error e)⟩ where
  recalls := recalls
  returns := ⟨_, rfl⟩
  read := by rintro l ⟨⟩
  spared spare := absurd spare spoilt
  failed _ := store

/-- An attempt may begin late, when nothing has been written before. -/
theorem Secures.since {o : Course (Except PoolError Lease)}
    (H : p.Secures role name i failing m s' o) (spare : failing.Spare n m) (le : n ≤ m)
    (later : m ≤ o.calls) (recalls : s.Recalls i p.topology s') (store : s'.store = s.store) :
    p.Secures role name i failing n s o where
  recalls := recalls.trans H.recalls
  returns := H.returns
  read := H.read
  spared := by
    rw [spare.iff le later, ← store, ← recalls.found]
    exact H.spared
  failed := by
    rw [spare.iff le later, ← store]
    exact H.failed

/-- No other lease is touched. -/
theorem Secures.others {o : Course (Except PoolError Lease)}
    (H : p.Secures role name i failing n s o) (sound : s.store.IsSound) {k : LeaseKey}
    (other : k ≠ ⟨p.ns, name⟩) : o.scene.store.leases.get? k = s.store.leases.get? k := by
  by_cases spare : failing.Spare n o.calls
  · exact (H.spared spare).get?_of_ne sound other
  · rw [H.failed spare]

/-- A lease that was missing is unclaimed when it is there. -/
theorem Secures.unclaimed {o : Course (Except PoolError Lease)}
    (H : p.Secures role name i failing n s o) (sound : s.store.IsSound)
    (missing : s.store.lease? p.ns name = none) (made : o.result? = some (.ok l)) :
    l.claim.holder = none := by
  have there := H.read l made
  by_cases spare : failing.Spare n o.calls
  · obtain ⟨l', there', tended⟩ := (H.spared spare).tended sound
    obtain rfl := Option.some.inj (there.symm.trans there')
    rw [(tended.new missing).1]
  · rw [H.failed spare, missing] at there
    contradiction

/-- A write that fails has written nothing. After a lost race the lease is read once more, and it
is what it was. -/
theorem secures_reread {e : PoolError} {next : Option Lease → Attempt Lease}
    (online : s.store.offline = false) (fails : failing n = some e)
    (same : ∀ m, ∃ result,
      s.course i failing m (next (s.store.lease? p.ns name)).run = ⟨s, m, some result⟩ ∧
        ∀ l, result = .ok l → s.store.lease? p.ns name = some l) :
    p.Secures role name i failing n s (s.course i failing (n + 1)
      (if e.isConflict then call (.getLease p.ns name) >>= next
        else throw e : Attempt Lease).run) := by
  have spoilt : ∀ m, n < m → ¬ failing.Spare n m := fun m => Failures.not_spare fails
  split
  · cases fails' : failing (n + 1) with
    | none =>
      obtain ⟨result, ended, read⟩ := same (n + 1 + 1)
      rw [course_call fails' (answer_getLease online), ended]
      exact ⟨.refl s, ⟨_, rfl⟩, fun l h => read l (Option.some.inj h),
        fun spare => absurd spare (spoilt (n + 1 + 1) (by omega)), fun _ => rfl⟩
    | some e' =>
      rw [course_call_of_failing fails']
      exact secures_of_error (.refl s) rfl (spoilt _ (by omega))
  · exact secures_of_error (.refl s) rfl (spoilt _ (Nat.lt_succ_self n))

/-- What is made of a lease that was found there. -/
theorem secures_correct {existing : Lease} (sound : s.store.IsSound)
    (online : s.store.offline = false) (found : s.store.lease? p.ns name = some existing) :
    p.Secures role name i failing n s (s.course i failing n
      (p.correct existing (role.labels p.name) (p.duration.get role)).run) := by
  have key : existing.key = ⟨p.ns, name⟩ := (sound _ _ found).1
  have named : existing.name = name := congrArg LeaseKey.name key
  unfold correct
  split
  · rename_i right
    exact ⟨.refl s, ⟨_, rfl⟩, fun l h => by cases h; exact found, fun _ => .managed found right,
      fun _ => rfl⟩
  · rename_i wrong
    cases fails : failing n with
    | none =>
      have stored : s.store.leases.get? existing.key = some existing := by rwa [key]
      rw [course_reply fails (answer_updateLease online stored)]
      refine ⟨recalls_write, ⟨_, rfl⟩, ?_, fun _ => .corrected found wrong,
        fun spoilt => absurd (Failures.spare_succ fails) spoilt⟩
      rintro l ⟨⟩
      refine MemoryStore.get?_write.trans (if_pos ?_)
      rw [Lease.key_edit, key]
    | some e =>
      rw [course_reply_of_failing fails, named]
      refine secures_reread online fails fun m => ⟨.ok existing, by rw [found]; rfl, ?_⟩
      rintro l ⟨⟩
      exact found

/-- Creates a lease with some owners, and takes what somebody else has created at the same time. -/
def create (p : Pool) (role : Role) (name : String) (owners : List OwnerReference) :
    Attempt Lease := do
  match ← reply (.createLease (p.newLease role name owners)) with
  | .ok lease => return lease
  | .error e =>
    if e.isConflict then
      match ← call (.getLease p.ns name) with
      | some lease => return lease
      | none => throw (.notFound .lease name)
    else throw e

/-- A lease that is missing is created when the owners are known. -/
theorem ensure_eq :
    p.ensure role name = call (.getLease p.ns name) >>= fun found =>
      match found with
      | some existing => p.correct existing (role.labels p.name) (p.duration.get role)
      | none => p.topology.owners >>= p.create role name :=
  rfl

/-- What is made of a lease that was not there. -/
theorem secures_create (online : s.store.offline = false)
    (missing : s.store.lease? p.ns name = none)
    (known : (s.found? i p.topology).toList.map Topology.ownerOf = owners) :
    p.Secures role name i failing n s
      (s.course i failing n (p.create role name owners).run) := by
  unfold create
  cases fails : failing n with
  | none =>
    have free : s.store.leases.get? (p.newLease role name owners).key = none := missing
    have answer : s.store.answer (.createLease (p.newLease role name owners)) =
        s.store.create (p.newLease role name owners) := by
      simp [MemoryStore.answer, online]
    rw [course_reply fails (answer.trans (MemoryStore.create_of_free free))]
    refine ⟨recalls_write, ⟨_, rfl⟩, ?_, fun _ => known ▸ .created missing,
      fun spoilt => absurd (Failures.spare_succ fails) spoilt⟩
    rintro l ⟨⟩
    exact MemoryStore.get?_write.trans (if_pos rfl)
  | some e =>
    rw [course_reply_of_failing fails]
    refine secures_reread online fails fun m =>
      ⟨.error (.notFound .lease name), by rw [missing]; rfl, ?_⟩
    rintro l ⟨⟩

/-- **Making sure of a lease** while some of the calls fail. -/
theorem secures_ensure (sound : s.store.IsSound) (online : s.store.offline = false) :
    p.Secures role name i failing n s (s.course i failing n (p.ensure role name).run) := by
  rw [ensure_eq]
  cases fails : failing n with
  | some e =>
    rw [course_call_of_failing fails]
    exact secures_of_error (.refl s) rfl (Failures.not_spare fails (Nat.lt_succ_self n))
  | none =>
    rw [course_call fails (answer_getLease online)]
    refine Secures.since ?_ (Failures.spare_succ fails) (Nat.le_succ n) le_calls (.refl s) rfl
    cases found : s.store.lease? p.ns name with
    | some existing => exact secures_correct sound online found
    | none =>
      have looks : s.Looks i p.topology failing (n + 1)
          ((s.found? i p.topology).toList.map Topology.ownerOf)
          (s.course i failing (n + 1) p.topology.owners.run) :=
        Topology.looks_owners online
      simp only
      rcases looks.result with ⟨known, spare⟩ | ⟨⟨e, failed⟩, spoilt⟩
      · rw [course_then_of_ok known]
        refine Secures.since ?_ spare le_calls le_calls looks.recalls looks.store
        rw [← looks.recalls.found]
        exact secures_create (looks.store ▸ online) (looks.store ▸ found) rfl
      · rw [course_then_of_error failed]
        exact secures_of_error looks.recalls looks.store spoilt

/-! ## Claiming the leader lease -/

/-- Claims a lease that was read, if it is available. -/
def contend (l : Lease) (holder : String) : Attempt Bool := do
  let now ← ask .now
  if ← available l holder now then
    let renewed ← renew l holder
    return renewed.isSome
  else return false

/-- The leader lease is read, or created if it is missing, before it is claimed. -/
theorem acquireLeader_eq :
    p.acquireLeader holder name = call (.getLease p.ns name) >>= fun found =>
      match found with
      | some lease => contend lease holder
      | none => p.ensure .leader name >>= fun lease => contend lease holder :=
  rfl

/-- How an attempt to claim the leader lease goes: it comes to an end if the claim can be counted,
no other lease is touched, and who leads holds the leader lease. -/
structure Contends (p : Pool) (holder name : String) (i : Nat) (s : Scene)
    (o : Course (Except PoolError Bool)) : Prop where
  recalls : s.Recalls i p.topology o.scene
  returns : (∀ l, s.store.lease? p.ns name = some l → l.admits holder = true) →
    ∃ result, o.result? = some result
  others : ∀ k ≠ ⟨p.ns, name⟩, o.scene.store.leases.get? k = s.store.leases.get? k
  acquired : o.result? = some (.ok true) → o.scene.store.offline = false ∧
    ∃ l, o.scene.store.lease? p.ns name = some l ∧ l.claim.holder = some holder

/-- An attempt that has not claimed the lease. -/
theorem contends_of_not {result : Except PoolError Bool} (recalls : s.Recalls i p.topology s')
    (others : ∀ k ≠ ⟨p.ns, name⟩, s'.store.leases.get? k = s.store.leases.get? k)
    (lost : result ≠ .ok true) : p.Contends holder name i s ⟨s', m, some result⟩ where
  recalls := recalls
  returns _ := ⟨_, rfl⟩
  others := others
  acquired := by
    rintro ⟨⟩
    contradiction

theorem Contends.since {o : Course (Except PoolError Bool)} (H : p.Contends holder name i s' o)
    (recalls : s.Recalls i p.topology s')
    (others : ∀ k ≠ ⟨p.ns, name⟩, s'.store.leases.get? k = s.store.leases.get? k)
    (counts : ∀ l, s'.store.lease? p.ns name = some l → l.admits holder = true) :
    p.Contends holder name i s o :=
  ⟨recalls.trans H.recalls, fun _ => H.returns counts,
    fun k other => (H.others k other).trans (others k other), H.acquired⟩

/-- A renewal that gets through. -/
theorem course_renew (online : s.store.offline = false) (now : s.now? = some t)
    (stored : s.store.leases.get? l.key = some l) (counts : l.admits holder = true)
    (through : failing n = none) :
    s.course i failing n (renew l holder).run =
      ⟨{ s with store := s.store.write (l.edit (.claim holder (.utc t))) }, n + 1,
        some (.ok (some (s.store.stamped (l.edit (.claim holder (.utc t))))))⟩ := by
  rw [renew_of_admits counts, course_now now, writeClaim,
    course_reply through (answer_updateLease online stored)]
  rfl

/-- A renewal that fails. -/
theorem course_renew_of_failing {e : PoolError} (now : s.now? = some t)
    (counts : l.admits holder = true) (fails : failing n = some e) :
    s.course i failing n (renew l holder).run =
      ⟨s, n + 1, some (if e.isConflict || e.isNotFound then .ok none else .error e)⟩ := by
  rw [renew_of_admits counts, course_now now, writeClaim, course_reply_of_failing fails]
  simp only
  split <;> rfl

/-- A renewal that cannot be counted. -/
theorem course_renew_of_not_admits (now : s.now? = some t) (uncounted : l.admits holder = false) :
    s.course i failing n (renew l holder).run = ⟨s, n, none⟩ := by
  rw [renew_of_not_admits (Bool.eq_false_iff.1 uncounted), course_now now]
  rfl

/-- **A claim that gets through**, by somebody to whom the lease is available. -/
theorem course_contend (online : s.store.offline = false) (now : s.now? = some t)
    (stored : s.store.leases.get? l.key = some l) (free : l.availableTo? holder t = some true)
    (counts : l.admits holder = true) (through : failing n = none) :
    s.course i failing n (contend l holder).run =
      ⟨{ s with store := s.store.write (l.edit (.claim holder (.utc t))) }, n + 1,
        some (.ok true)⟩ := by
  have renewed : s.course i failing n (renew l holder).run = _ :=
    course_renew online now stored counts through
  rw [contend, course_now now, available, free, course_orCrash, if_pos rfl]
  rw [course_then_of_ok (congrArg Course.result? renewed), renewed]
  rfl

/-- A claim that fails. A race that is lost is no error. -/
theorem course_contend_of_failing {e : PoolError} (now : s.now? = some t)
    (free : l.availableTo? holder t = some true) (counts : l.admits holder = true)
    (fails : failing n = some e) :
    s.course i failing n (contend l holder).run =
      ⟨s, n + 1, some (if e.isConflict || e.isNotFound then .ok false else .error e)⟩ := by
  have renewed : s.course i failing n (renew l holder).run = _ :=
    course_renew_of_failing now counts fails
  rw [contend, course_now now, available, free, course_orCrash, if_pos rfl]
  by_cases race : (e.isConflict || e.isNotFound) = true
  · rw [if_pos race] at renewed ⊢
    rw [course_then_of_ok (congrArg Course.result? renewed), renewed]
    rfl
  · rw [if_neg race] at renewed ⊢
    rw [course_then_of_error (congrArg Course.result? renewed), renewed]

/-- A claim that cannot be counted. -/
theorem course_contend_of_not_admits (now : s.now? = some t)
    (free : l.availableTo? holder t = some true) (uncounted : l.admits holder = false) :
    s.course i failing n (contend l holder).run = ⟨s, n, none⟩ := by
  have stuck : s.course i failing n (renew l holder).run = _ :=
    course_renew_of_not_admits now uncounted
  rw [contend, course_now now, available, free, course_orCrash, if_pos rfl]
  rw [course_then_of_none (congrArg Course.result? stuck), stuck]

/-- A claim on a lease that is not available. -/
theorem course_contend_of_not_free (now : s.now? = some t)
    (free : l.availableTo? holder t = some false) :
    s.course i failing n (contend l holder).run = ⟨s, n, some (.ok false)⟩ := by
  rw [contend, course_now now, available, free, course_orCrash]
  rfl

/-- A claim on a lease that was read and is available. -/
theorem contends_of_free (online : s.store.offline = false) (now : s.now? = some t)
    (sound : s.store.IsSound) (found : s.store.lease? p.ns name = some l)
    (free : l.availableTo? holder t = some true) :
    p.Contends holder name i s (s.course i failing n (contend l holder).run) := by
  have key : l.key = ⟨p.ns, name⟩ := (sound _ _ found).1
  have stored : s.store.leases.get? l.key = some l := by rwa [key]
  by_cases counts : l.admits holder = true
  case neg =>
    rw [course_contend_of_not_admits now free (Bool.eq_false_iff.2 counts)]
    exact ⟨.refl s, fun all => absurd (all l found) counts, fun k _ => rfl, nofun⟩
  cases fails : failing n with
  | none =>
    rw [course_contend online now stored free counts fails]
    refine ⟨recalls_write, fun _ => ⟨_, rfl⟩, fun k other => ?_, fun _ => ?_⟩
    · rw [MemoryStore.get?_write, Lease.key_edit, key, if_neg other]
    · refine ⟨online, _, MemoryStore.get?_write.trans (if_pos ?_), Lease.claim_holder_claim⟩
      rw [Lease.key_edit, key]
  | some e =>
    rw [course_contend_of_failing now free counts fails]
    refine contends_of_not (.refl s) (fun k _ => rfl) ?_
    split <;> simp

/-- A claim on a lease that was read. -/
theorem contends_contend (online : s.store.offline = false) (now : s.now? = some t)
    (sound : s.store.IsSound) (found : s.store.lease? p.ns name = some l)
    (sure : l.availableTo? holder t ≠ none) :
    p.Contends holder name i s (s.course i failing n (contend l holder).run) := by
  obtain ⟨vacant, free⟩ := Option.ne_none_iff_exists'.1 sure
  cases vacant with
  | false =>
    rw [course_contend_of_not_free now free]
    exact contends_of_not (.refl s) (fun k _ => rfl) (by simp)
  | true => exact contends_of_free online now sound found free

/-- **Claiming the leader lease** while some of the calls fail. -/
theorem contends_acquireLeader (now : s.now? = some t) (sound : s.store.IsSound)
    (ends : ∀ l, s.store.lease? p.ns name = some l → l.expiry ≠ .outOfRange) :
    p.Contends holder name i s (s.course i failing n (p.acquireLeader holder name).run) := by
  rw [acquireLeader_eq]
  cases fails : failing n with
  | some e =>
    rw [course_call_of_failing fails]
    exact contends_of_not (.refl s) (fun k _ => rfl) (by simp)
  | none =>
    cases online : s.store.offline with
    | true =>
      rw [course_call_of_error fails (answer_offline online)]
      exact contends_of_not (.refl s) (fun k _ => rfl) (by simp)
    | false =>
      rw [course_call fails (answer_getLease online)]
      cases found : s.store.lease? p.ns name with
      | some l =>
        refine contends_contend online now sound found fun puzzling => ?_
        exact ends l found (Lease.expiry_of_availableTo?_eq_none puzzling)
      | none =>
        have secures : p.Secures .leader name i failing (n + 1) s
            (s.course i failing (n + 1) (p.ensure .leader name).run) :=
          secures_ensure sound online
        simp only
        obtain ⟨_ | l, made⟩ := secures.returns
        · rw [course_then_of_error made]
          exact contends_of_not secures.recalls (fun k other => secures.others sound other)
            (by simp)
        · rw [course_then_of_ok made]
          have unclaimed : l.claim.holder = none := secures.unclaimed sound found made
          have free : l.availableTo? holder t = some true := by
            simp [Lease.availableTo?, Lease.holder?, unclaimed]
          refine Contends.since ?_ secures.recalls (fun k other => secures.others sound other) ?_
          · exact contends_contend (online_course online) (secures.recalls.now.trans now)
              (isSound_course sound) (secures.read l made) (by simp [free])
          · intro l' there
            obtain rfl := Option.some.inj ((secures.read l made).symm.trans there)
            exact Lease.admits_of_holder (by simp [unclaimed])

/-- **To renew the claim on the leader lease** when all calls get through. -/
theorem course_acquireLeader (online : s.store.offline = false) (now : s.now? = some t)
    (sound : s.store.IsSound) (found : s.store.lease? p.ns name = some l)
    (free : l.availableTo? holder t = some true) (counts : l.admits holder = true)
    (through : ∀ k, failing k = none) :
    s.course i failing n (p.acquireLeader holder name).run =
      ⟨{ s with store := s.store.write (l.edit (.claim holder (.utc t))) }, n + 1 + 1,
        some (.ok true)⟩ := by
  have stored : s.store.leases.get? l.key = some l := by rwa [(sound _ _ found).1]
  rw [acquireLeader_eq, course_call (through n) (answer_getLease online), found]
  exact course_contend online now stored free counts (through (n + 1))

end Pool

end LeasePool
