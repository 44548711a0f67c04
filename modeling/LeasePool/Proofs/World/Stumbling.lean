import LeasePool.Proofs.World.Alone
import LeasePool.Lease.Codec
import LeasePool.World.Task

/-!
# Cycles over any leases

A cycle that nobody disturbs ends, whatever is stored, with two exceptions: it crashes if it has
to tell whether a lease is available whose holder's claim ends beyond the calendar, and if it has
to take a lease from its holder that has changed hands so often that one more change cannot be
counted. Claims that were renewed in the years 1970 to 9000 never end beyond the calendar, whatever
their durations, and a cycle makes no other claims if its clock shows one of these years.
-/

namespace LeasePool

/-! ## The calendar -/

/-- The time is in the years 1970 to 9000. -/
def Instant.IsTimely (t : Instant) : Prop := Instant.ofYear 1970 ≤ t ∧ t < Instant.ofYear 9001

namespace Lease

/-- The claim was renewed in the years 1970 to 9000, if at all, as the clock of the writer has
it. -/
def IsTimely (l : Lease) : Prop :=
  ∀ renewed, l.claim.renewed = some renewed → renewed.wallClock.IsTimely

/-- Seconds of which there are as many as an `Int32` can count do not lead from these years beyond
the calendar. -/
theorem inRange_of_isTimely {t : Instant} {n : Int32} (H : t.IsTimely) :
    (t.plus (n.toInt * 1000000000)).inRange = true := by
  obtain ⟨early, late⟩ := H
  have least := Int32.le_toInt n
  have greatest := Int32.toInt_lt n
  have early : (Instant.ofYear 1970).nanoseconds ≤ t.nanoseconds := early
  have late : t.nanoseconds < (Instant.ofYear 9001).nanoseconds := late
  simp only [Instant.inRange, Bool.and_eq_true, decide_eq_true_eq]
  simp only [Instant.ofYear, Instant.ofDay, Date.daysBeforeYear, Instant.epochDay,
    Instant.perDay] at early late
  constructor
  · change (Instant.ofYear (-9999)).nanoseconds ≤ t.nanoseconds + n.toInt * 1000000000
    simp only [Instant.ofYear, Instant.ofDay, Date.daysBeforeYear, Instant.epochDay,
      Instant.perDay]
    omega
  · change t.nanoseconds + n.toInt * 1000000000 < (Instant.ofYear 10000).nanoseconds
    simp only [Instant.ofYear, Instant.ofDay, Date.daysBeforeYear, Instant.epochDay,
      Instant.perDay]
    omega

/-- A claim that was renewed in these years does not end beyond the calendar, whatever its
duration. -/
theorem IsTimely.expiry_ne {l : Lease} (H : l.IsTimely) : l.expiry ≠ .outOfRange := by
  simp only [expiry]
  split
  · rename_i renewed duration hr hd
    have inside : (Stamp.wallClock ⟨renewed.instant.plus (duration.toInt * 1000000000),
        renewed.offset⟩).inRange = true := by
      have swap : (renewed.instant.plus (duration.toInt * 1000000000)).plus
          (renewed.offset * 60000000000) =
            renewed.wallClock.plus (duration.toInt * 1000000000) := by
        simp only [Stamp.wallClock, Instant.plus, Instant.mk.injEq]
        omega
      rw [Stamp.wallClock, swap]
      exact inRange_of_isTimely (H renewed hr)
    simp [Stamp.plusSeconds?, inside]
  · simp

end Lease

namespace MemoryStore.Serves

variable {t : Instant} {before after : MemoryStore} {k : LeaseKey} {l m : Lease}

/-- What an operation makes of a stored claim: how often the lease went from one holder to another
is as before, or one more if there is room, and the claim has not been renewed, or now. -/
theorem kept (H : before.Serves t after) (stored : before.leases.get? k = some l) :
    ∃ m, after.leases.get? k = some m ∧
      (m.claim.transitions = l.claim.transitions ∨
        l.claim.transitions.getD 0 ≠ Int32.maxValue ∧
          m.claim.transitions = some (l.claim.transitions.getD 0 + 1)) ∧
      (m.claim.renewed = l.claim.renewed ∨ m.claim.renewed = some (.utc t)) := by
  obtain ⟨first, last, tends, claims, later⟩ := H
  obtain ⟨a, here, -, renewed, transitions⟩ := tends.kept k l stored
  rcases claims with rfl | ⟨b, holder, current, admits, rfl⟩
  · obtain ⟨c, there, -, renewed', transitions'⟩ := later.kept k a here
    exact ⟨c, there, .inl (transitions'.trans transitions), .inl (renewed'.trans renewed)⟩
  · by_cases same : k = b.key
    · subst same
      obtain rfl := Option.some.inj (current.symm.trans here)
      have edited : (first.write (b.edit (.claim holder (.utc t)))).leases.get? b.key = _ :=
        get?_write
      rw [Lease.key_edit, if_pos rfl] at edited
      obtain ⟨c, there, -, renewed', transitions'⟩ := later.kept _ _ edited
      refine ⟨c, there, ?_, .inr (renewed'.trans Lease.claim_renewed_claim)⟩
      rw [transitions', claim_stamped, ← transitions]
      cases taken : Claim.isTakenOverBy holder b.holder? with
      | true => exact .inr (Lease.claim_transitions_of_taken admits taken)
      | false => exact .inl (Lease.claim_transitions_of_not_taken taken)
    · have kept : (first.write (b.edit (.claim holder (.utc t)))).leases.get? k = _ := get?_write
      rw [Lease.key_edit, if_neg same, here] at kept
      obtain ⟨c, there, -, renewed', transitions'⟩ := later.kept k a kept
      exact ⟨c, there, .inl (transitions'.trans transitions), .inl (renewed'.trans renewed)⟩

/-- A new lease has had no holder before. -/
theorem new (H : before.Serves t after) (stored : after.leases.get? k = some m)
    (free : before.leases.get? k = none) :
    m.claim.transitions = none ∧ (m.claim.renewed = none ∨ m.claim.renewed = some (.utc t)) := by
  obtain ⟨first, last, tends, claims, later⟩ := H
  cases between : last.leases.get? k with
  | none =>
    obtain ⟨-, renewed, transitions⟩ := later.new k m stored between
    exact ⟨transitions, .inl renewed⟩
  | some c =>
    obtain ⟨m', stored', -, renewed', transitions'⟩ := later.kept k c between
    obtain rfl := Option.some.inj (stored.symm.trans stored')
    rw [renewed', transitions']
    rcases claims with rfl | ⟨b, holder, current, -, rfl⟩
    · obtain ⟨-, renewed, transitions⟩ := tends.new k c between free
      exact ⟨transitions, .inl renewed⟩
    · rw [get?_write, Lease.key_edit] at between
      split at between
      · rename_i same
        subst same
        obtain ⟨unclaimed, -, transitions⟩ := tends.new _ b current free
        obtain rfl := Option.some.inj between
        refine ⟨?_, .inr Lease.claim_renewed_claim⟩
        simp [Lease.edit, Claim.renewedBy, Lease.holder?, unclaimed, Claim.isTakenOverBy,
          transitions]
      · obtain ⟨-, renewed, transitions⟩ := tends.new k c between free
        exact ⟨transitions, .inl renewed⟩

end MemoryStore.Serves

/-! ## Cycles -/

namespace Scene.Ends

variable {α β : Type} {i : Nat} {s : Scene} {t : Instant} {before : MemoryStore}
  {stumbles : Prop}

/-- After an operation on leases only such things are done that cannot crash. -/
theorem leads {a : α} {x : Operation β} (E : Ends t before stumbles s (some a))
    (H : x.IsReading) : s.Leads i (Ends t before stumbles) x := by
  refine (leads_of_isReading E.calm H).mono ?_
  rintro s' o ⟨calm, same, b, rfl⟩
  exact ⟨calm, same ▸ E.serves, by simpa using E.crashes⟩

/-- Nor can what only corrects and creates leases. -/
theorem tidies {a : α} {s' : Scene} {o : Option β} (E : Ends t before stumbles s (some a))
    (T : Tidies t s.store s' o) : Ends t before stumbles s' o :=
  ⟨T.calm, E.serves.tends T.tends, by simpa [T.ends] using E.crashes⟩

end Scene.Ends

namespace Participant

open Attempt Scene Pool

variable {p : Participant} {i : Nat} {s : Scene} {t : Instant}

theorem leads_outcome {α : Type} {x : Attempt α}
    {Q : Scene → Option (Except PoolError (Except PoolError α)) → Prop}
    (H : s.Leads i (fun s' o => Q s' (o.map .ok)) x.run) : s.Leads i Q (outcome x).run := by
  refine leads_bind (x := x.run) (H.mono fun s' o h => ?_)
  cases o with
  | none => exact h
  | some result => exact h

theorem leads_ensureMembers {ordinals : List Nat} (C : s.IsCalm t) :
    s.Leads i (Tidies t s.store) (p.ensureMembers ordinals).run := by
  induction ordinals generalizing s with
  | nil => exact ⟨C, .refl _, by simp⟩
  | cons ordinal rest ih =>
    refine leads_then (leads_outcome ((leads_ensure C).mono ?_))
    rintro s' o ⟨calm, tends, ends⟩
    cases o with
    | none => exact absurd rfl ends
    | some result =>
      refine (ih calm).mono fun s'' o h => ?_
      exact ⟨h.calm, tends.trans h.tends, h.ends⟩

/-- What a role comes to grief over: a lease that defeats it. A leader looks at the leader lease,
and a member at the lease that it holds. A member that holds none looks at those it can choose from,
unless it finds one that is in its hands. -/
def Falters (p : Participant) (t : Instant) (store : MemoryStore) (held : Option String) :
    Role → Prop
  | .leader => store.Defeats t p.pool.ns p.pod p.leaderLease
  | .member =>
    match held with
    | some name => store.Defeats t p.pool.ns p.pod name
    | none =>
      (∀ l ∈ choices store p.pool.ns p.pool.name, l.isHeldBy p.pod = false) ∧
        ∃ l, decisive? p.pod t (choices store p.pool.ns p.pool.name) = some l ∧ l.Defeats p.pod t

/-- A leader's cycle crashes only over the leader lease. -/
theorem leads_reconcile {held : Option String} (C : s.IsCalm t) :
    s.Leads i (Ends t s.store (s.store.offline = false ∧ p.Falters t s.store held .leader))
      p.reconcile.run := by
  refine leads_then ((leads_acquireLeader C).mono ?_)
  rintro s₁ o E
  rcases o with _ | _ | leads
  · exact E.of_none
  · exact E.of_some
  · cases leads with
    | false => exact E.of_some
    | true =>
      refine leads_then ((E.leads Topology.isReading_desiredReplicas?).mono ?_)
      rintro s₂ o E
      rcases o with _ | _ | _ | replicas
      · exact E.of_none
      · exact E.of_some
      · exact E.of_some
      · refine leads_then ((leads_ensureMembers E.calm).mono ?_)
        intro s₃ o T
        have E := E.tidies T
        rcases o with _ | _ | _
        · exact E.of_none
        · exact E.of_some
        · exact E.of_some

/-- A member's cycle crashes only over the lease it holds, or over one it could have. -/
theorem leads_acquire {held : Option String} (C : s.IsCalm t)
    (holds : s.ask i .heldLease = some (held, s)) :
    s.Leads i (Ends t s.store (s.store.offline = false ∧ p.Falters t s.store held .member))
      p.acquire.run := by
  refine leads_then ?_
  simp only [Attempt.ask, ExceptT.run_mk, Leads, holds]
  cases held with
  | some name =>
    refine leads_then ((leads_renewByName C).mono ?_)
    rintro s₁ o E
    rcases o with _ | _ | _ | _
    · exact E.of_none
    · exact E.of_some
    · exact E.leads fun _ => trivial
    · exact E.of_some
  | none =>
    refine leads_then ((leads_acquireMember C).mono ?_)
    rintro s₁ o E
    rcases o with _ | _ | _ | _
    · exact E.of_none
    · exact E.of_some
    · exact E.of_some
    · exact E.leads fun _ => trivial

theorem leads_work {held : Option String} {role : Role} (C : s.IsCalm t)
    (holds : s.ask i .heldLease = some (held, s)) :
    s.Leads i (Ends t s.store (s.store.offline = false ∧ p.Falters t s.store held role))
      (p.work role).run := by
  cases role with
  | leader => exact leads_reconcile C
  | member => exact leads_acquire C holds

end Participant

namespace Scene

variable {i : Nat} {s : Scene} {t : Instant} {r : Replica} {role : Role}

/-- A cycle of a role comes to grief: it is let in, the store can be read, and it has to look at a
claim that ends beyond the calendar, or to take a lease from its holder and cannot count that. -/
def Stumbles (s : Scene) (t : Instant) (r : Replica) (role : Role) : Prop :=
  r.participant.enabled.get role = true ∧ (r.guards.get role).isRunning = false ∧
    s.store.offline = false ∧ r.participant.Falters t s.store r.held role

theorem leads_cycle (C : s.IsCalm t) (here : s.replicas[i]? = some r) :
    s.Leads i (Ends t s.store (s.Stumbles t r role)) (r.participant.cycle role) := by
  unfold Participant.cycle
  by_cases enabled : r.participant.enabled.get role = true
  · rw [if_pos enabled]
    let entered : Scene := s.modifyReplica i fun r =>
      { r with guards := r.guards.set role (r.guards.get role).tryEnter.2 }
    have asked : s.ask i (.enter role) = some (!(r.guards.get role).isRunning, entered) := by
      simp [ask, here, CycleGuard.tryEnter, entered]
    have calm := C.asked asked
    refine leads_bind ?_
    simp only [Leads, asked, Option.elim_some]
    cases busy : (r.guards.get role).isRunning with
    | true => exact ⟨calm, (MemoryStore.Tends.refl _).serves, by simp [Stumbles, busy]⟩
    | false =>
      have holds : entered.ask i .heldLease = some (r.held, entered) := by
        simp [ask, entered, modifyReplica, here]
      have stumbles : s.Stumbles t r role ↔
          entered.store.offline = false ∧ r.participant.Falters t entered.store r.held role := by
        simp only [Stumbles, enabled, busy, true_and]
        rfl
      rw [propext stumbles]
      refine leads_bind ((Participant.leads_work calm holds).mono fun s₁ o E => ?_)
      cases o with
      | none => exact E.of_none
      | some result => exact E.leads fun _ => trivial
  · rw [if_neg enabled]
    exact ⟨C, (MemoryStore.Tends.refl _).serves, by simp [Stumbles, enabled]⟩

/-- What a cycle comes to grief over is stored. -/
theorem exists_of_stumbles (C : s.IsCalm t) (H : s.Stumbles t r role) :
    ∃ k l, s.store.leases.get? k = some l ∧ l.Defeats r.participant.pod t := by
  obtain ⟨-, -, -, falters⟩ := H
  cases role with
  | leader => exact ⟨_, falters⟩
  | member =>
    cases held : r.held with
    | some name =>
      rw [held] at falters
      exact ⟨_, falters⟩
    | none =>
      rw [held] at falters
      obtain ⟨-, l, decides, defeats⟩ := falters
      exact ⟨_, l, Pool.stored_of_mem_choices C (List.mem_of_find?_eq_some decides), defeats⟩

/-- To run a cycle is to crash exactly if it stumbles. -/
theorem run_cycle_eq_crashed_iff (C : s.IsCalm t) (here : s.replicas[i]? = some r) :
    (run i none (r.participant.cycle role) s).2 = .crashed ↔ s.Stumbles t r role := by
  have leads : s.Leads i _ (r.participant.cycle role) := leads_cycle C here
  obtain ⟨s', o, E, ends, -⟩ := run_of_leads none C.quiet leads
  rw [ends, ← E.crashes]
  cases o with
  | none => simp
  | some result => simp

/-- A controller whose cycle stumbles has run its last cycle. -/
theorem pollCycle_of_stumbles {stopping : Bool} {ticker : Ticker} {interval : Nat}
    (C : s.IsCalm t) (here : s.replicas[i]? = some r) (stumbles : s.Stumbles t r role) :
    (s.pollCycle ⟨i, role, interval⟩ stopping ticker (.start i (s.cycleOf i role))).2 =
      .ended .crash := by
  have crashed := (run_cycle_eq_crashed_iff C here).2 stumbles
  have cycle : s.cycleOf i role = r.participant.cycle role := by simp [cycleOf, here]
  rw [← cycle] at crashed
  simp only [pollCycle, resume, Running.start]
  generalize run i none (s.cycleOf i role) s = x at crashed ⊢
  obtain ⟨s', progress⟩ := x
  obtain rfl : progress = .crashed := crashed
  rfl

/-- **Cycles over any leases.** A cycle that nobody disturbs ends, or it crashes, and that exactly
if it has to look at a claim whose end is beyond the calendar, or to take a lease from its holder
and cannot count that. No lease goes away. How often a lease went from one holder to another is as
before or one more, and never goes down. If the clock shows one of the years 1970 to 9000, and all
claims were renewed in these years, so it is afterwards; and the cycle ends if moreover no lease has
gone from one holder to another as often as can be counted. -/
theorem run_cycle (C : s.IsCalm t) (here : s.replicas[i]? = some r) :
    ((run i none (r.participant.cycle role) s).2 = .crashed ↔ s.Stumbles t r role) ∧
    (¬ s.Stumbles t r role → (run i none (r.participant.cycle role) s).2 = .ended ()) ∧
    (∀ k l, s.store.leases.get? k = some l → ∃ m,
      (run i none (r.participant.cycle role) s).1.store.leases.get? k = some m ∧
      (m.claim.transitions = l.claim.transitions ∨
        m.claim.transitions = some (l.claim.transitions.getD 0 + 1)) ∧
      (l.claim.transitions.getD 0).toInt ≤ (m.claim.transitions.getD 0).toInt) ∧
    (t.IsTimely → (∀ k l, s.store.leases.get? k = some l → l.IsTimely) →
      ((∀ k l, s.store.leases.get? k = some l → l.claim.transitions ≠ some Int32.maxValue) →
        (run i none (r.participant.cycle role) s).2 = .ended ()) ∧
      ∀ k m, (run i none (r.participant.cycle role) s).1.store.leases.get? k = some m →
        m.IsTimely) := by
  have leads : s.Leads i _ (r.participant.cycle role) := leads_cycle C here
  obtain ⟨s', o, E, ends, store⟩ := run_of_leads none C.quiet leads
  have sure : ¬ s.Stumbles t r role →
      (run i none (r.participant.cycle role) s).2 = .ended () := by
    intro sure
    rw [ends]
    cases o with
    | none => exact absurd (E.crashes.1 rfl) sure
    | some result => rfl
  rw [store]
  refine ⟨run_cycle_eq_crashed_iff C here, sure, ?_, ?_⟩
  · intro k l stored
    obtain ⟨m, there, transitions, -⟩ := E.serves.kept stored
    refine ⟨m, there, transitions.imp_right And.right, ?_⟩
    rcases transitions with same | ⟨room, more⟩
    · have equal : l.claim.transitions.getD 0 = m.claim.transitions.getD 0 := by rw [same]
      exact Int.le_of_eq (congrArg Int32.toInt equal)
    · rw [more, Option.getD_some, toInt_succ room]
      omega
  · intro year timely
    refine ⟨fun room => sure fun stumbles => ?_, ?_⟩
    · obtain ⟨k, l, stored, odd | ⟨-, uncounted⟩⟩ := exists_of_stumbles C stumbles
      · exact (timely k l stored).expiry_ne (Lease.expiry_of_availableTo?_eq_none odd)
      · exact room k l stored (Lease.admits_eq_false_iff.1 uncounted).2
    · intro k m there renewed hr
      have now : (Stamp.utc t).wallClock = t := by simp [Stamp.wallClock, Stamp.utc, Instant.plus]
      cases before : s.store.leases.get? k with
      | none =>
        obtain ⟨-, never | again⟩ := E.serves.new there before
        · rw [never] at hr
          contradiction
        · obtain rfl := Option.some.inj (again.symm.trans hr)
          rwa [now]
      | some l =>
        obtain ⟨m', there', -, same | again⟩ := E.serves.kept before
        · obtain rfl := Option.some.inj (there.symm.trans there')
          exact timely k l before renewed (same.symm.trans hr)
        · obtain rfl := Option.some.inj (there.symm.trans there')
          obtain rfl := Option.some.inj (again.symm.trans hr)
          rwa [now]

/-! ## Leases that somebody else has written -/

/-- A process of the pool that the settings describe by default. -/
def single : Replica :=
  { participant := { pool := .ofSettings "ns" {} (.fixed 1), pod := "a", enabled := ⟨true, true⟩ }
    check := { pool := "flow-pool", identity := { ns := "ns", pod := "a" } } }

/-- A scene at the beginning of 2025, with one process and a lease. -/
def ofLease (lease : Lease) : Scene :=
  { clock := ⟨.utc (.ofYear 2025)⟩, store := MemoryStore.put {} lease, replicas := [single] }

theorem isCalm_ofLease {lease : Lease} : (ofLease lease).IsCalm (.ofYear 2025) where
  quiet := rfl
  now := rfl
  sound := (MemoryStore.isSound_of_empty rfl).put lease

end Scene

/-- A leader lease as somebody else has written it, with a claim. -/
def Json.leaderLease (claim : List (String × Json)) : Json :=
  .object
    [("metadata",
        .object [("name", .string "flow-pool-leader-flow-pool"), ("namespace", .string "ns")]),
      ("spec", .object claim)]

namespace Scene

/-- A claim of somebody else on the leader lease that ends an hour after the last second of the
calendar. -/
def lastHour : Lease :=
  { metadata := { name := "flow-pool-leader-flow-pool", ns := "ns" }
    claim :=
      { holder := some "x"
        duration := some 3600
        renewed := some (.utc ⟨253402300799000000000⟩) } }

/-- Such a claim can be read from a document, and a leader's cycle crashes over it. -/
theorem run_cycle_lastHour :
    Lease.decode? Json.depthLimit (.leaderLease
      [("holderIdentity", .string "x"), ("leaseDurationSeconds", .number (.integer 3600)),
        ("renewTime", .string "9999-12-31T23:59:59Z")]) = some lastHour ∧
    (ofLease lastHour).Stumbles (.ofYear 2025) single .leader ∧
    (run 0 none (single.participant.cycle .leader) (ofLease lastHour)).2 = .crashed := by
  have stumbles : (ofLease lastHour).Stumbles (.ofYear 2025) single .leader :=
    ⟨rfl, rfl, rfl, _, rfl, .inl (by decide +kernel)⟩
  exact ⟨rfl, stumbles, (run_cycle isCalm_ofLease rfl).1.2 stumbles⟩

/-- Two leases can be read from documents and stored over which a leader's cycle crashes in 2025:
one is held for longer than the calendar goes, and the other has expired and has gone from one
holder to another as often as can be counted. -/
theorem crashes_on_decoded :
    (∃ l, Lease.decode? Json.depthLimit (.leaderLease
        [("holderIdentity", .string "x"), ("leaseDurationSeconds", .number (.integer 3600)),
          ("renewTime", .string "9999-12-31T23:59:59Z")]) = some l ∧
      (run 0 none (single.participant.cycle .leader) (ofLease l)).2 = .crashed) ∧
    ∃ l, Lease.decode? Json.depthLimit (.leaderLease
        [("holderIdentity", .string "x"), ("leaseDurationSeconds", .number (.integer 60)),
          ("renewTime", .string "2024-01-01T00:00:00Z"),
          ("leaseTransitions", .number (.integer 2147483647))]) = some l ∧
      l.availableTo? "a" (.ofYear 2025) = some true ∧
      (run 0 none (single.participant.cycle .leader) (ofLease l)).2 = .crashed :=
  ⟨⟨_, rfl, rfl⟩, _, rfl, by decide +kernel, rfl⟩

end Scene

end LeasePool
