import LeasePool.Proofs.Fleet.History
import LeasePool.Proofs.Lease.Claims
import LeasePool.Proofs.World.Elapsed

/-!
# Operations that nobody disturbs

What an operation of a process comes to when there are no faults and nobody else does anything
in between. Then everything can be told beforehand: what is read is still stored when it is
written, so no write loses a race, and an operation crashes only over a claim that ends beyond the
calendar or over a change of hands that cannot be counted.

## Main definitions

* `Scene.Leads`: what an operation comes to.
* `Scene.IsCalm`: there are no faults, and the clock shows a time.
* `Operation.IsReading`: an operation that writes no lease and does not crash.
* `MemoryStore.Tends`, `MemoryStore.Serves`: what happens to claims.

## Main statements

* `Scene.run_of_leads`: what operations lead to is what running them comes to.
* `Pool.leads_renew`: a claim that nobody disturbs succeeds.
* `Pool.leads_acquireLeader`, `Pool.leads_renewByName`, `Pool.leads_acquireMember`: when the
  claims of the roles crash.
-/

namespace LeasePool

/-! ## Undisturbed operations -/

namespace Scene

/-- An operation of a process leads to a scene and a result of which `Q` holds, if nobody
disturbs it. One that crashes has no result. -/
def Leads {α : Type} (i : Nat) (Q : Scene → Option α → Prop) : Operation α → Scene → Prop
  | .done a, s => Q s (some a)
  | .crash, s => Q s none
  | .ask q next, s =>
    match s.ask i q with
    | some (answer, s) => Leads i Q (next answer) s
    | none => Q s none
  | .call c next, s =>
    Leads i Q (next (s.store.answer c).2) { s with store := (s.store.answer c).1 }

variable {α β : Type} {i : Nat} {s : Scene} {P Q : Scene → Option α → Prop}
  {R : Scene → Option β → Prop}

theorem Leads.mono {x : Operation α} (H : s.Leads i P x) (h : ∀ t o, P t o → Q t o) :
    s.Leads i Q x := by
  induction x generalizing s with
  | done a => exact h _ _ H
  | crash => exact h _ _ H
  | call c next ih => exact ih _ H
  | ask q next ih =>
    simp only [Leads] at H ⊢
    split at H
    · exact ih _ H
    · exact h _ _ H

/-- What comes after an operation goes on from where the operation led to. -/
theorem leads_bind {x : Operation α} {f : α → Operation β}
    (H : s.Leads i (fun t o => o.elim (R t none) fun a => t.Leads i R (f a)) x) :
    s.Leads i R (x.bind f) := by
  induction x generalizing s with
  | done a => exact H
  | crash => exact H
  | call c next ih => exact ih _ H
  | ask q next ih =>
    simp only [Leads, Operation.ask_bind] at H ⊢
    split at H
    · exact ih _ H
    · exact H

/-- Attempts go on only with what succeeds. -/
theorem leads_then {x : Attempt α} {f : α → Attempt β}
    {R : Scene → Option (Except PoolError β) → Prop}
    (H : s.Leads i (fun t (o : Option (Except PoolError α)) => match o with
      | some (.ok a) => t.Leads i R (f a).run
      | some (.error e) => R t (some (.error e))
      | none => R t none) x.run) : s.Leads i R (x >>= f).run := by
  refine leads_bind (x := x.run) (H.mono fun t o h => ?_)
  cases o with
  | none => exact h
  | some result =>
    cases result with
    | ok a => exact h
    | error e => exact h

/-! ## Running them -/

/-- There are no faults, the clock shows a time, and the store is sound. -/
structure IsCalm (t : Instant) (s : Scene) : Prop where
  quiet : s.faults = []
  now : s.now? = some t
  sound : s.store.IsSound

theorem faults_ask {t : Scene} {q : Query} {a : q.Answer} (h : s.ask i q = some (a, t)) :
    t.faults = s.faults := by
  cases q with
  | now =>
    obtain ⟨now, -, e⟩ := Option.map_eq_some_iff.1 h
    cases e
    rfl
  | announce kind lease =>
    cases h
    simp only [announce]
    split <;> rfl
  | knownDeployment | setKnownDeployment | heldLease | enter | leave =>
    cases h
    rfl

theorem call_of_quiet {c : StoreCall} (quiet : s.faults = []) :
    s.call c = ({ s with store := (s.store.answer c).1 }, .replied (s.store.answer c).2) := by
  have due : Fault.due [] c = ([], []) := rfl
  simp only [call, quiet, due, goEarly, goLate, List.map_nil]

/-- **What operations lead to is what running them comes to.** -/
theorem run_of_leads {x : Operation α} (inside : Option Role) (quiet : s.faults = [])
    (H : s.Leads i Q x) :
    ∃ t o, Q t o ∧ (run i inside x s).2 = o.elim .crashed .ended ∧
      (run i inside x s).1.store = t.store := by
  induction x generalizing s inside with
  | done a => exact ⟨s, some a, H, rfl, rfl⟩
  | crash => exact ⟨s, none, H, rfl, frame_abandon.store⟩
  | call c next ih =>
    simp only [run, call_of_quiet quiet]
    exact ih _ _ quiet H
  | ask q next ih =>
    cases asked : s.ask i q with
    | some reply =>
      obtain ⟨answer, t⟩ := reply
      simp only [Leads, asked] at H
      simp only [run, asked]
      exact ih _ _ ((faults_ask asked).trans quiet) H
    | none =>
      simp only [Leads, asked] at H
      simp only [run, asked]
      exact ⟨s, none, H, rfl, frame_abandon.store⟩

namespace IsCalm

variable {t : Instant} (C : s.IsCalm t)
include C

theorem asked {s' : Scene} {q : Query} {a : q.Answer} (h : s.ask i q = some (a, s')) :
    s'.IsCalm t := by
  have frame := frame_ask h
  refine ⟨(faults_ask h).trans C.quiet, ?_, ?_⟩
  · rw [← C.now, now?, now?, frame.ticking, frame.clock, elapsed_ask h]
  · rw [frame.store]
    exact C.sound

theorem written (l : Lease) : IsCalm t { s with store := s.store.write l } :=
  ⟨C.quiet, C.now, C.sound.put l⟩

end IsCalm

/-! ## Attempts, one step at a time -/

section

variable {t : Instant} {c : StoreCall} {store : MemoryStore}
  {R : Scene → Option (Except PoolError β) → Prop}

theorem leads_now {f : Instant → Attempt β} (C : s.IsCalm t) (H : s.Leads i R (f t).run) :
    s.Leads i R (Attempt.ask .now >>= f).run := by
  have now : s.ask i .now = some (t, s) := by simp [ask, C.now]
  refine leads_then ?_
  simp only [Attempt.ask, ExceptT.run_mk, Leads, now]
  exact H

theorem leads_call {f : c.Answer → Attempt β} {a : c.Answer}
    (answer : s.store.answer c = (store, .ok a))
    (H : Leads i R (f a).run { s with store }) : s.Leads i R (Attempt.call c >>= f).run := by
  change Leads i R ((Operation.done (s.store.answer c).2).bind _)
    { s with store := (s.store.answer c).1 }
  rw [answer]
  exact H

theorem leads_call_of_error {f : c.Answer → Attempt β} {e : PoolError}
    (answer : s.store.answer c = (store, .error e)) (H : R { s with store } (some (.error e))) :
    s.Leads i R (Attempt.call c >>= f).run := by
  change Leads i R ((Operation.done (s.store.answer c).2).bind _)
    { s with store := (s.store.answer c).1 }
  rw [answer]
  exact H

theorem leads_reply {f : c.Reply → Attempt β} {reply : c.Reply}
    (answer : s.store.answer c = (store, reply))
    (H : Leads i R (f reply).run { s with store }) : s.Leads i R (Attempt.reply c >>= f).run := by
  change Leads i R (f (s.store.answer c).2).run { s with store := (s.store.answer c).1 }
  rw [answer]
  exact H

theorem leads_orCrash {o : Option α} {f : α → Attempt β}
    (H : match o with
      | some a => s.Leads i R (f a).run
      | none => R s none) : s.Leads i R (Attempt.orCrash o >>= f).run := by
  cases o with
  | none => exact H
  | some a => exact H

theorem leads_of_none (H : R s none) :
    s.Leads i R (Attempt.orCrash (none : Option β) : Attempt β).run := H

end

end Scene

/-! ## Operations that write nothing -/

namespace Operation

/-- The operation writes no lease, and does not crash. -/
def IsReading {α : Type} : Operation α → Prop
  | done _ => True
  | crash | call (.createLease _) _ | call (.updateLease _) _ => False
  | call _ next => ∀ reply, (next reply).IsReading
  | ask _ next => ∀ a, (next a).IsReading

variable {α β : Type}

theorem isReading_bind {x : Operation α} {f : α → Operation β} (hx : x.IsReading)
    (hf : ∀ a, (f a).IsReading) : (x.bind f).IsReading := by
  induction x with
  | done a => exact hf a
  | crash => exact hx.elim
  | ask q next ih => exact fun a => ih a (hx a)
  | call c next ih =>
    cases c with
    | createLease | updateLease => exact hx.elim
    | getLease | listLeases | getWorkload => exact fun reply => ih reply (hx reply)

end Operation

namespace Attempt

variable {α β : Type}

theorem isReading_bind {x : Attempt α} {f : α → Attempt β} (hx : x.run.IsReading)
    (hf : ∀ a, (f a).run.IsReading) : (x >>= f).run.IsReading := by
  refine Operation.isReading_bind (x := x.run) hx ?_
  intro r
  cases r with
  | ok a => exact hf a
  | error e => trivial

theorem isReading_getWorkload {kind : WorkloadKind} {ns name : String}
    {f : Option Workload → Attempt β} (hf : ∀ a, (f a).run.IsReading) :
    (call (.getWorkload kind ns name) >>= f).run.IsReading := by
  intro reply
  cases reply with
  | ok a => exact hf a
  | error e => trivial

theorem isReading_ask {q : Query} {f : q.Answer → Attempt β} (hf : ∀ a, (f a).run.IsReading) :
    (ask q >>= f).run.IsReading := hf

end Attempt

namespace Topology

open Attempt

theorem isReading_walk {pod : Identity} : (walk pod).run.IsReading := by
  refine isReading_getWorkload fun found? => ?_
  cases found? with
  | none => trivial
  | some found =>
    simp only
    split
    · trivial
    · refine isReading_getWorkload fun replicaSet? => ?_
      cases replicaSet? with
      | none => trivial
      | some replicaSet =>
        simp only
        split
        · trivial
        · refine isReading_getWorkload fun owner? => ?_
          cases owner? with
          | none => trivial
          | some owner => exact isReading_ask fun _ => trivial

theorem isReading_deployment? {pod : Identity} : (deployment? pod).run.IsReading := by
  refine isReading_ask fun known? => ?_
  cases known? with
  | none => exact isReading_walk
  | some name =>
    refine isReading_getWorkload fun known? => ?_
    cases known? with
    | none => exact isReading_ask fun _ => isReading_walk
    | some known => trivial

theorem isReading_desiredReplicas? {topology : Topology} :
    topology.desiredReplicas?.run.IsReading := by
  cases topology with
  | fixed replicas => trivial
  | deployment pod => exact isReading_bind isReading_deployment? fun _ => trivial

theorem isReading_owners {topology : Topology} : topology.owners.run.IsReading := by
  cases topology with
  | fixed replicas => trivial
  | deployment pod => exact isReading_bind isReading_deployment? fun _ => trivial

end Topology

namespace Scene

variable {α : Type} {i : Nat} {s : Scene} {t : Instant}

theorem leads_of_isReading {x : Operation α} (C : s.IsCalm t) (H : x.IsReading) :
    s.Leads i (fun s' o => s'.IsCalm t ∧ s'.store = s.store ∧ ∃ a, o = some a) x := by
  induction x generalizing s with
  | done a => exact ⟨C, rfl, a, rfl⟩
  | crash => exact H.elim
  | ask q next ih =>
    simp only [Leads]
    split
    · rename_i answer s' asked
      refine (ih answer (C.asked asked) (H answer)).mono fun s'' o h => ?_
      exact ⟨h.1, h.2.1.trans (frame_ask asked).store, h.2.2⟩
    · rename_i asked
      cases q with
      | now => simp [ask, C.now] at asked
      | knownDeployment | setKnownDeployment | heldLease | announce | enter | leave =>
        simp [ask] at asked
  | call c next ih =>
    have same : (s.store.answer c).1 = s.store ∧ (next (s.store.answer c).2).IsReading := by
      cases c with
      | createLease | updateLease => exact H.elim
      | getLease | listLeases | getWorkload =>
        refine ⟨?_, H _⟩
        simp only [MemoryStore.answer]
        split <;> rfl
    simp only [Leads, same.1]
    exact ih _ C same.2

end Scene

/-! ## What happens to claims -/

namespace MemoryStore

/-- Claims are as they were, and new leases are unclaimed. -/
structure Tends (before after : MemoryStore) : Prop where
  kept : ∀ k l, before.leases.get? k = some l → ∃ m, after.leases.get? k = some m ∧
    m.claim.holder = l.claim.holder ∧ m.claim.renewed = l.claim.renewed ∧
    m.claim.transitions = l.claim.transitions
  new : ∀ k m, after.leases.get? k = some m → before.leases.get? k = none →
    m.claim.holder = none ∧ m.claim.renewed = none ∧ m.claim.transitions = none

variable {before middle after : MemoryStore}

theorem Tends.refl (s : MemoryStore) : s.Tends s where
  kept _ l stored := ⟨l, stored, rfl, rfl, rfl⟩
  new k _ stored free := by
    rw [free] at stored
    contradiction

theorem Tends.trans (H : before.Tends middle) (K : middle.Tends after) : before.Tends after where
  kept k l stored := by
    obtain ⟨m, stored, holder, renewed, transitions⟩ := H.kept k l stored
    obtain ⟨n, stored, holder', renewed', transitions'⟩ := K.kept k m stored
    exact ⟨n, stored, holder'.trans holder, renewed'.trans renewed,
      transitions'.trans transitions⟩
  new k n stored free := by
    cases between : middle.leases.get? k with
    | none => exact K.new k n stored between
    | some m =>
      obtain ⟨holder, renewed, transitions⟩ := H.new k m between free
      obtain ⟨n', stored', holder', renewed', transitions'⟩ := K.kept k m between
      obtain rfl := Option.some.inj (stored.symm.trans stored')
      exact ⟨holder'.trans holder, renewed'.trans renewed, transitions'.trans transitions⟩

/-- A correction of a stored lease. -/
theorem tends_manage {l : Lease} {labels : Labels} {duration : Int32}
    (stored : before.leases.get? l.key = some l) :
    before.Tends (before.write (l.edit (.manage labels duration))) where
  kept k m here := by
    rw [get?_write, Lease.key_edit]
    split
    · rename_i same
      subst same
      obtain rfl := Option.some.inj (stored.symm.trans here)
      exact ⟨_, rfl, rfl, rfl, rfl⟩
    · exact ⟨m, here, rfl, rfl, rfl⟩
  new k m there free := by
    rw [get?_write, Lease.key_edit] at there
    split at there
    · rename_i same
      rw [same, stored] at free
      contradiction
    · rw [free] at there
      contradiction

/-- A creation of an unclaimed lease. -/
theorem tends_create {l : Lease} (free : before.leases.get? l.key = none)
    (unclaimed : l.claim.holder = none ∧ l.claim.renewed = none ∧ l.claim.transitions = none) :
    before.Tends (before.write (before.created l)) where
  kept k m here := by
    have other : k ≠ (before.created l).key := by
      rintro rfl
      have free : before.leases.get? (before.created l).key = none := free
      rw [free] at here
      contradiction
    rw [get?_write, if_neg other]
    exact ⟨m, here, rfl, rfl, rfl⟩
  new k m there free := by
    rw [get?_write] at there
    split at there
    · obtain rfl := Option.some.inj there
      exact unclaimed
    · rw [free] at there
      contradiction

/-- One lease at most has been claimed at a time, and all other claims are as they were. -/
def Serves (t : Instant) (before after : MemoryStore) : Prop :=
  ∃ first last : MemoryStore, before.Tends first ∧
    (last = first ∨ ∃ l holder, first.leases.get? l.key = some l ∧ l.admits holder = true ∧
      last = first.write (l.edit (.claim holder (.utc t)))) ∧
    last.Tends after

variable {t : Instant}

theorem Tends.serves (H : before.Tends after) : before.Serves t after :=
  ⟨after, after, H, .inl rfl, .refl after⟩

theorem Serves.tends (H : before.Serves t middle) (K : middle.Tends after) :
    before.Serves t after := by
  obtain ⟨first, last, tends, claims, later⟩ := H
  exact ⟨first, last, tends, claims, later.trans K⟩

theorem Tends.serves_claim {l : Lease} {holder : String} (H : before.Tends middle)
    (stored : middle.leases.get? l.key = some l) (admits : l.admits holder = true) :
    before.Serves t (middle.write (l.edit (.claim holder (.utc t)))) :=
  ⟨middle, _, H, .inr ⟨l, holder, stored, admits, rfl⟩, .refl _⟩

end MemoryStore

/-- A lease defeats somebody who wants to claim it if nobody can tell whether it is available,
since the present claim ends beyond the calendar, or if it is available and the change of hands
cannot be counted. -/
def Lease.Defeats (l : Lease) (requester : String) (t : Instant) : Prop :=
  l.availableTo? requester t = none ∨
    l.availableTo? requester t = some true ∧ l.admits requester = false

/-- A stored lease defeats somebody who wants to claim it. -/
def MemoryStore.Defeats (s : MemoryStore) (t : Instant) (ns requester name : String) : Prop :=
  ∃ l, s.lease? ns name = some l ∧ l.Defeats requester t

/-! ## Operations on leases -/

namespace Scene

/-- How an operation on leases ends: one lease at most has been claimed, and the operation has
crashed exactly if it stumbles. -/
structure Ends {α : Type} (t : Instant) (before : MemoryStore) (stumbles : Prop) (s : Scene)
    (o : Option α) : Prop where
  calm : s.IsCalm t
  serves : before.Serves t s.store
  crashes : o = none ↔ stumbles

/-- What crashes, crashes. -/
theorem Ends.of_none {α β : Type} {before : MemoryStore} {stumbles : Prop} {s : Scene} {t : Instant}
    (E : Ends t before stumbles s (none : Option α)) :
    Ends t before stumbles s (none : Option β) :=
  ⟨E.calm, E.serves, by simpa using E.crashes⟩

/-- What has not crashed may have any other result. -/
theorem Ends.of_some {α β : Type} {before : MemoryStore} {stumbles : Prop} {s : Scene} {t : Instant}
    {a : α} {b : β} (E : Ends t before stumbles s (some a)) :
    Ends t before stumbles s (some b) :=
  ⟨E.calm, E.serves, by simpa using E.crashes⟩

/-- What cannot crash stumbles over nothing. -/
theorem Ends.of_not {α : Type} {before : MemoryStore} {stumbles : Prop} {s : Scene} {t : Instant}
    {o : Option α} (E : Ends t before False s o) (sure : ¬ stumbles) : Ends t before stumbles s o :=
  ⟨E.calm, E.serves, by simpa [sure] using E.crashes⟩

/-- An operation that only corrects and creates leases. -/
structure Tidies {α : Type} (t : Instant) (before : MemoryStore) (s : Scene) (o : Option α) :
    Prop where
  calm : s.IsCalm t
  tends : before.Tends s.store
  ends : o ≠ none

end Scene

namespace Pool

open Attempt Scene

variable {p : Pool} {i : Nat} {s : Scene} {t : Instant} {holder name : String} {role : Role}

/-- A store that is switched off answers nothing. -/
theorem answer_offline {c : StoreCall} (offline : s.store.offline = true) :
    s.store.answer c = (s.store, .error (.unavailable .offline)) :=
  MemoryStore.answer_of_offline offline

theorem answer_getLease {ns : String} (online : s.store.offline = false) :
    s.store.answer (.getLease ns name) = (s.store, .ok (s.store.lease? ns name)) := by
  simp [MemoryStore.answer, online]

/-- **An edit of a stored lease succeeds** if nobody disturbs it. -/
theorem answer_updateLease {l : Lease} {e : Edit} (online : s.store.offline = false)
    (stored : s.store.leases.get? l.key = some l) :
    s.store.answer (.updateLease (l.edit e)) =
      (s.store.write (l.edit e), .ok (s.store.stamped (l.edit e))) := by
  have shows : MemoryStore.Shows (l.edit e) l := .inr Lease.version_edit
  have stored : s.store.leases.get? (l.edit e).key = some l := by rwa [Lease.key_edit]
  have update := MemoryStore.update_of_shows stored shows
  simp [MemoryStore.answer, online, update]

/-- A stored lease that was read. -/
theorem stored_of_lease? {l : Lease} {ns : String} (C : s.IsCalm t)
    (found : s.store.lease? ns name = some l) : s.store.leases.get? l.key = some l := by
  have key := (C.sound _ _ found).1
  rw [key]
  exact found

theorem leads_correct {existing : Lease} {labels : Labels} {duration : Int32} (C : s.IsCalm t)
    (online : s.store.offline = false)
    (stored : s.store.leases.get? existing.key = some existing) :
    s.Leads i (Tidies t s.store) (p.correct existing labels duration).run := by
  unfold correct
  split
  · exact ⟨C, .refl _, by simp⟩
  · refine leads_reply (answer_updateLease online stored) ?_
    exact ⟨C.written _, MemoryStore.tends_manage stored, by simp⟩

/-- A lease that is missing is created, and nobody holds it, unless its owners cannot be told. -/
theorem leads_ensure_of_missing (C : s.IsCalm t) (online : s.store.offline = false)
    (missing : s.store.lease? p.ns name = none) :
    s.Leads i (fun s' o => Tidies t s.store s' o ∧ ∀ l, o = some (.ok l) →
      s'.store.offline = false ∧ s'.store.leases.get? l.key = some l ∧ l.claim.holder = none)
      (p.ensure role name).run := by
  refine leads_call (answer_getLease online) ?_
  rw [missing]
  refine leads_then ((leads_of_isReading C Topology.isReading_owners).mono ?_)
  rintro s' o ⟨calm, same, result, rfl⟩
  cases result with
  | error e => exact ⟨⟨calm, same ▸ .refl _, by simp⟩, by simp⟩
  | ok owners =>
    have free : s'.store.leases.get? (p.newLease role name owners).key = none := same ▸ missing
    have unclaimed : (p.newLease role name owners).claim.holder = none ∧
        (p.newLease role name owners).claim.renewed = none ∧
        (p.newLease role name owners).claim.transitions = none := ⟨rfl, rfl, rfl⟩
    have create := MemoryStore.create_of_free free
    have answer : s'.store.answer (.createLease (p.newLease role name owners)) =
        (s'.store.write (s'.store.created (p.newLease role name owners)),
          .ok (s'.store.stamped (s'.store.created (p.newLease role name owners)))) := by
      simp [MemoryStore.answer, same ▸ online, create]
    refine leads_reply answer ⟨⟨calm.written _, ?_, by simp⟩, ?_⟩
    · rw [← same]
      exact MemoryStore.tends_create free unclaimed
    · rintro l ⟨⟩
      refine ⟨same ▸ online, ?_, rfl⟩
      exact MemoryStore.get?_write.trans (if_pos rfl)

theorem leads_ensure (C : s.IsCalm t) :
    s.Leads i (Tidies t s.store) (p.ensure role name).run := by
  cases offline : s.store.offline with
  | true => exact leads_call_of_error (answer_offline offline) ⟨C, .refl _, by simp⟩
  | false =>
    cases found : s.store.lease? p.ns name with
    | none => exact (leads_ensure_of_missing C offline found).mono fun s' o h => h.1
    | some existing =>
      refine leads_call (answer_getLease offline) ?_
      rw [found]
      exact leads_correct C offline (stored_of_lease? C found)

/-- **A claim on a stored lease that can be counted succeeds** if nobody disturbs it. -/
theorem leads_renew_of_admits {before : MemoryStore} {l : Lease} (C : s.IsCalm t)
    (tends : before.Tends s.store) (online : s.store.offline = false)
    (stored : s.store.leases.get? l.key = some l) (admits : l.admits holder = true) :
    s.Leads i (fun s' o => Ends t before False s' o ∧ ∃ m, o = some (.ok (some m)))
      (renew l holder).run := by
  rw [renew_of_admits admits]
  refine leads_now C (leads_reply (answer_updateLease online stored) ?_)
  exact ⟨⟨C.written _, tends.serves_claim stored admits, by simp⟩, _, rfl⟩

/-- A claim on a stored lease that is available. -/
theorem leads_renew {before : MemoryStore} {l : Lease} {stumbles : Prop} (C : s.IsCalm t)
    (tends : before.Tends s.store) (online : s.store.offline = false)
    (stored : s.store.leases.get? l.key = some l) (free : l.availableTo? holder t = some true)
    (defeats : l.Defeats holder t ↔ stumbles) :
    s.Leads i (fun s' o => Ends t before stumbles s' o ∧ ∀ r, o = some r → ∃ m, r = .ok (some m))
      (renew l holder).run := by
  have defeats : stumbles ↔ l.admits holder = false := by simp [← defeats, Lease.Defeats, free]
  by_cases admits : l.admits holder = true
  · have sure : ¬ stumbles := by simp [defeats, admits]
    refine (leads_renew_of_admits C tends online stored admits).mono ?_
    rintro s' o ⟨E, m, rfl⟩
    exact ⟨E.of_not sure, fun r same => ⟨m, (Option.some.inj same).symm⟩⟩
  · rw [renew_of_not_admits admits]
    refine leads_now C (leads_of_none ⟨⟨C, tends.serves, ?_⟩, fun r same => ?_⟩)
    · simpa [defeats] using admits
    · contradiction

/-- To renew a claim by the name of the lease. -/
theorem leads_renewByName (C : s.IsCalm t) :
    s.Leads i (Ends t s.store (s.store.offline = false ∧ s.store.Defeats t p.ns holder name))
      (p.renewByName name holder).run := by
  cases offline : s.store.offline with
  | true =>
    exact leads_call_of_error (answer_offline offline)
      ⟨C, (MemoryStore.Tends.refl _).serves, by simp⟩
  | false =>
    refine leads_call (answer_getLease offline) ?_
    cases found : s.store.lease? p.ns name with
    | none =>
      exact ⟨C, (MemoryStore.Tends.refl _).serves, by simp [MemoryStore.Defeats, found]⟩
    | some l =>
      refine leads_now C (leads_orCrash ?_)
      have defeats : s.store.Defeats t p.ns holder name ↔ l.Defeats holder t := by
        simp [MemoryStore.Defeats, found]
      simp only [defeats, true_and]
      cases free : l.availableTo? holder t with
      | none => exact ⟨C, (MemoryStore.Tends.refl _).serves, by simp [Lease.Defeats, free]⟩
      | some vacant =>
        cases vacant with
        | false => exact ⟨C, (MemoryStore.Tends.refl _).serves, by simp [Lease.Defeats, free]⟩
        | true =>
          have stored := stored_of_lease? C found
          exact (leads_renew C (.refl _) offline stored free .rfl).mono fun s' o h => h.1

/-- To claim a lease that has been read, if it is available. -/
theorem leads_claim {before : MemoryStore} {l : Lease} {stumbles : Prop} (C : s.IsCalm t)
    (tends : before.Tends s.store) (online : s.store.offline = false)
    (stored : s.store.leases.get? l.key = some l)
    (defeats : l.Defeats holder t ↔ stumbles) :
    s.Leads i (Ends t before stumbles)
      (do
        let now ← ask .now
        if ← available l holder now then
          let renewed ← renew l holder
          return renewed.isSome
        else return false : Attempt Bool).run := by
  refine leads_now C (leads_orCrash ?_)
  cases free : l.availableTo? holder t with
  | none => exact ⟨C, tends.serves, by simp [← defeats, Lease.Defeats, free]⟩
  | some vacant =>
    cases vacant with
    | false => exact ⟨C, tends.serves, by simp [← defeats, Lease.Defeats, free]⟩
    | true =>
      refine leads_then ((leads_renew C tends online stored free defeats).mono ?_)
      rintro s' o ⟨E, claimed⟩
      cases o with
      | none => exact E.of_none
      | some r =>
        obtain ⟨m, rfl⟩ := claimed r rfl
        exact E.of_some

/-- To claim the leader lease, or renew the claim. A lease that is created on the way is nobody's,
so it does not defeat anybody. -/
theorem leads_acquireLeader (C : s.IsCalm t) :
    s.Leads i (Ends t s.store (s.store.offline = false ∧ s.store.Defeats t p.ns holder name))
      (p.acquireLeader holder name).run := by
  cases offline : s.store.offline with
  | true =>
    exact leads_call_of_error (answer_offline offline)
      ⟨C, (MemoryStore.Tends.refl _).serves, by simp⟩
  | false =>
    refine leads_call (answer_getLease offline) ?_
    cases found : s.store.lease? p.ns name with
    | none =>
      have sure : ¬ s.store.Defeats t p.ns holder name := by simp [MemoryStore.Defeats, found]
      refine leads_then ((leads_ensure_of_missing C offline found).mono ?_)
      rintro s' o ⟨⟨calm, tends, ends⟩, created⟩
      rcases o with _ | _ | l
      · exact absurd rfl ends
      · exact ⟨calm, tends.serves, by simp [sure]⟩
      · obtain ⟨online, stored, unclaimed⟩ := created l rfl
        refine leads_claim calm tends online stored ?_
        simp [Lease.Defeats, Lease.admits, Claim.isTakenOverBy, Lease.availableTo?, Lease.holder?,
          unclaimed, sure]
    | some l =>
      refine leads_claim C (.refl _) offline (stored_of_lease? C found) ?_
      simp [MemoryStore.Defeats, found]

/-- The first of some leases about which there is anything but a refusal. -/
def decisive? (holder : String) (t : Instant) (leases : List Lease) : Option Lease :=
  leases.find? fun l => l.availableTo? holder t ≠ some false

/-- To claim the first of some leases that is available. -/
theorem leads_claimFirst {leases : List Lease} (C : s.IsCalm t)
    (online : s.store.offline = false)
    (stored : ∀ l ∈ leases, s.store.leases.get? l.key = some l) :
    s.Leads i (Ends t s.store (∃ l, decisive? holder t leases = some l ∧ l.Defeats holder t))
      (claimFirst holder t leases).run := by
  induction leases with
  | nil => exact ⟨C, (MemoryStore.Tends.refl _).serves, by simp [decisive?]⟩
  | cons l leases ih =>
    refine leads_orCrash ?_
    cases free : l.availableTo? holder t with
    | none =>
      exact ⟨C, (MemoryStore.Tends.refl _).serves, by simp [decisive?, Lease.Defeats, free]⟩
    | some vacant =>
      cases vacant with
      | false =>
        simp only [decisive?, List.find?_cons, free]
        exact ih fun m hm => stored m (List.mem_cons_of_mem _ hm)
      | true =>
        have here := stored l List.mem_cons_self
        have defeats : l.Defeats holder t ↔
            ∃ m, decisive? holder t (l :: leases) = some m ∧ m.Defeats holder t := by
          simp [decisive?, free]
        refine leads_then ((leads_renew C (.refl _) online here free defeats).mono ?_)
        rintro s' o ⟨E, claimed⟩
        cases o with
        | none => exact E.of_none
        | some r =>
          obtain ⟨m, rfl⟩ := claimed r rfl
          exact E

/-- The leases that a member of a pool can choose from, in the order in which it looks at
them. -/
def choices (s : MemoryStore) (ns pool : String) : List Lease :=
  byName ((s.leasesOf ns).filter fun l => (memberSelector pool).selects l.metadata.labels)

theorem stored_of_mem_choices {l : Lease} {ns pool : String} (C : s.IsCalm t)
    (hl : l ∈ choices s.store ns pool) : s.store.leases.get? l.key = some l := by
  simp only [choices, byName, List.mem_mergeSort, List.mem_filter, MemoryStore.leasesOf,
    List.mem_map, Prod.exists, ← Table.get?_eq_some_iff] at hl
  obtain ⟨⟨k, l', ⟨stored, -⟩, rfl⟩, -⟩ := hl
  rw [(C.sound _ _ stored).1]
  exact stored

/-- To claim a member lease. Whoever holds one claims that one, and does not look at others. -/
theorem leads_acquireMember {pool : String} (C : s.IsCalm t) :
    s.Leads i (Ends t s.store (s.store.offline = false ∧
      (∀ l ∈ choices s.store p.ns pool, l.isHeldBy holder = false) ∧
      ∃ l, decisive? holder t (choices s.store p.ns pool) = some l ∧ l.Defeats holder t))
      (p.acquireMember holder pool).run := by
  cases offline : s.store.offline with
  | true =>
    exact leads_call_of_error (answer_offline offline)
      ⟨C, (MemoryStore.Tends.refl _).serves, by simp⟩
  | false =>
    have answer : s.store.answer (.listLeases p.ns (memberSelector pool)) =
        (s.store, .ok ((s.store.leasesOf p.ns).filter fun l =>
          (memberSelector pool).selects l.metadata.labels)) := by
      simp [MemoryStore.answer, offline]
    have stored : ∀ l ∈ choices s.store p.ns pool, s.store.leases.get? l.key = some l :=
      fun l hl => stored_of_mem_choices C hl
    refine leads_call answer ?_
    unfold choices at stored ⊢
    generalize byName ((s.store.leasesOf p.ns).filter fun l =>
      (memberSelector pool).selects l.metadata.labels) = leases at stored ⊢
    cases leases with
    | nil => exact ⟨C, (MemoryStore.Tends.refl _).serves, by simp [decisive?]⟩
    | cons l leases =>
      cases own : (l :: leases).filter fun l => l.isHeldBy holder with
      | nil =>
        have none_own := List.filter_eq_nil_iff.1 own
        simp only [own, renewFirst]
        refine leads_now C ((leads_claimFirst C offline stored).mono ?_)
        rintro s' o ⟨calm, serves, crashes⟩
        refine ⟨calm, serves, crashes.trans ?_⟩
        simp only [true_and, iff_and_self]
        exact fun _ l hl => Bool.eq_false_iff.2 (none_own l hl)
      | cons first rest =>
        have mem : first ∈ (l :: leases).filter fun l => l.isHeldBy holder := by simp [own]
        obtain ⟨listed, held⟩ := List.mem_filter.1 mem
        simp only [own, renewFirst]
        have admits := Lease.admits_of_isHeldBy held
        refine leads_then (leads_then ((leads_renew_of_admits C (.refl _) offline
          (stored first listed) admits).mono ?_))
        rintro s' o ⟨E, m, rfl⟩
        refine E.of_some.of_not ?_
        rintro ⟨-, none_own, -⟩
        rw [none_own first listed] at held
        contradiction

end Pool

end LeasePool
