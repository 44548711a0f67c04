import LeasePool.Proofs.Fleet.Closed
import LeasePool.Proofs.Store.Twins

/-!
# Operations that go on alike

An operation of a participant, run over two stores that have the same leases of its pool, asks
the same of its process and calls both stores in the same way, as long as the replies are the
same but for versions and identifiers. Whatever it writes is a lease of its own pool, and
whatever lease it tells its process about is a member lease of the pool. All this is seen from
the trees of requests, without a look at any store or at anybody else.
-/

namespace LeasePool

/-- Where the leases of a pool lie. -/
abbrev Pool.home (p : Pool) : Home := ⟨p.ns, p.name⟩

/-- What may be asked of a process: events are about member leases of the pool. -/
def Home.Permits (a : Home) : Query → Prop
  | .announce _ lease => Role.member.Names a.pool lease
  | _ => True

/-- What a process may answer: the lease that it holds is a member lease of the pool. -/
def Home.Admits (a : Home) : (q : Query) → q.Answer → Prop
  | .heldLease, held => ∀ lease, held = some lease → Role.member.Names a.pool lease
  | _, _ => True

namespace Operation

/-- Two operations on the leases of a pool go on alike, each over a store of its own, and their
results are related. -/
inductive Matches {α β : Type} (a : Home) (R : Tally → α → β → Prop) :
    Tally → Operation α → Operation β → Prop
  | done {t : Tally} {x : α} {y : β} (related : R t x y) : Matches a R t (.done x) (.done y)
  | crash {t : Tally} : Matches a R t .crash .crash
  | ask {t : Tally} {q : Query} {next : q.Answer → Operation α} {next' : q.Answer → Operation β}
    (permitted : a.Permits q) (rest : ∀ x, a.Admits q x → Matches a R t (next x) (next' x)) :
    Matches a R t (.ask q next) (.ask q next')
  | getLease {t : Tally} {role : Role} {name : String} {next : _ → Operation α}
    {next' : _ → Operation β} (named : role.Names a.pool name)
    (rest : ∀ u r r', t ≤ u → Agree (Option.Rel (Lease.Twins a role u)) r r' →
      Matches a R u (next r) (next' r')) :
    Matches a R t (.call (.getLease a.ns name) next) (.call (.getLease a.ns name) next')
  | createLease {t : Tally} {role : Role} {l : Lease} {next : _ → Operation α}
    {next' : _ → Operation β} (isOf : l.IsOf a role)
    (rest : ∀ u r r', t ≤ u → Agree (Lease.Twins a role u) r r' →
      Matches a R u (next r) (next' r')) :
    Matches a R t (.call (.createLease l) next) (.call (.createLease l) next')
  | updateLease {t : Tally} {role : Role} {l l' : Lease} {next : _ → Operation α}
    {next' : _ → Operation β} (twins : l.Twins a role t l')
    (rest : ∀ u r r', t ≤ u → Agree (Lease.Twins a role u) r r' →
      Matches a R u (next r) (next' r')) :
    Matches a R t (.call (.updateLease l) next) (.call (.updateLease l') next')
  | listLeases {t : Tally} {next : _ → Operation α} {next' : _ → Operation β}
    (rest : ∀ u r r', t ≤ u → Agree (Lease.TwinLists a .member u) r r' →
      Matches a R u (next r) (next' r')) :
    Matches a R t (.call (.listLeases a.ns (memberSelector a.pool)) next)
      (.call (.listLeases a.ns (memberSelector a.pool)) next')
  | getWorkload {t : Tally} {kind : WorkloadKind} {ns name : String} {next : _ → Operation α}
    {next' : _ → Operation β} (rest : ∀ r, Matches a R t (next r) (next' r)) :
    Matches a R t (.call (.getWorkload kind ns name) next)
      (.call (.getWorkload kind ns name) next')

variable {α β γ δ : Type} {a : Home} {t u : Tally} {R : Tally → α → β → Prop}
  {S : Tally → γ → δ → Prop} {x : Operation α} {y : Operation β}

/-- **More versions that stand for each other** do no harm. -/
theorem Matches.mono (H : x.Matches a R t y) (mono : Monotone R) (le : t ≤ u) :
    x.Matches a R u y := by
  induction H with
  | done related => exact .done (mono le _ _ related)
  | crash => exact .crash
  | ask permitted _ ih => exact .ask permitted fun x hx => ih x hx le
  | getLease named rest => exact .getLease named fun v r r' le' => rest v r r' (le.trans le')
  | createLease isOf rest => exact .createLease isOf fun v r r' le' => rest v r r' (le.trans le')
  | updateLease twins rest =>
    exact .updateLease (twins.mono le) fun v r r' le' => rest v r r' (le.trans le')
  | listLeases rest => exact .listLeases fun v r r' le' => rest v r r' (le.trans le')
  | getWorkload _ ih => exact .getWorkload fun r => ih r le

/-- **An operation and what follows it.** -/
theorem Matches.bind {f : α → Operation γ} {g : β → Operation δ} (H : x.Matches a R t y)
    (follows : ∀ u b c, t ≤ u → R u b c → (f b).Matches a S u (g c)) :
    (x.bind f).Matches a S t (y.bind g) := by
  induction H with
  | done related => exact follows _ _ _ le_rfl related
  | crash => exact .crash
  | ask permitted _ ih => exact .ask permitted fun x hx => ih x hx follows
  | getLease named _ ih =>
    exact .getLease named fun v r r' le agree =>
      ih v r r' le agree fun u b c le' => follows u b c (le.trans le')
  | createLease isOf _ ih =>
    exact .createLease isOf fun v r r' le agree =>
      ih v r r' le agree fun u b c le' => follows u b c (le.trans le')
  | updateLease twins _ ih =>
    exact .updateLease twins fun v r r' le agree =>
      ih v r r' le agree fun u b c le' => follows u b c (le.trans le')
  | listLeases _ ih =>
    exact .listLeases fun v r r' le agree =>
      ih v r r' le agree fun u b c le' => follows u b c (le.trans le')
  | getWorkload _ ih => exact .getWorkload fun r => ih r follows

/-- Whatever is written is a lease of the pool. -/
theorem Matches.isOf_of_written {c : StoreCall} {next : c.Reply → Operation α} {l : Lease}
    (H : (call c next).Matches a R t y) (written : c.written? = some l) :
    ∃ role, l.IsOf a role := by
  cases H with
  | createLease isOf => exact ⟨_, Option.some.inj written ▸ isOf⟩
  | updateLease twins => exact ⟨_, Option.some.inj written ▸ twins.isOf⟩
  | getLease | listLeases | getWorkload => contradiction

/-- **A call over two stores** of which the second mirrors the first: both operations call, the
second store mirrors the first afterwards, and both operations go on alike from there. -/
theorem Matches.call {c : StoreCall} {next : c.Reply → Operation α} {s s' : MemoryStore}
    (H : (call c next).Matches a R t y) (M : s.Mirrors a t s') (orderly : s.IsOrderly) :
    ∃ c' next' u, y = .call c' next' ∧ t ≤ u ∧ (s.answer c).1.Mirrors a u (s'.answer c').1 ∧
      (next (s.answer c).2).Matches a R u (next' (s'.answer c').2) := by
  -- A call that writes nothing leaves both stores alone.
  have reads : ∀ c c' : StoreCall, c.written? = none → c'.written? = none →
      (s.answer c).1.Mirrors a t (s'.answer c').1 := by
    intro c c' hc hc'
    rw [MemoryStore.answer_of_not_stored (MemoryStore.stored?_eq_none hc),
      MemoryStore.answer_of_not_stored (MemoryStore.stored?_eq_none hc')]
    exact M
  cases H with
  | getLease named rest =>
    exact ⟨_, _, t, rfl, le_rfl, reads _ _ rfl rfl, rest t _ _ le_rfl (M.getLease named)⟩
  | createLease isOf rest =>
    obtain ⟨u, le, mirrors, agree⟩ := M.createLease isOf
    exact ⟨_, _, u, rfl, le, mirrors, rest u _ _ le agree⟩
  | updateLease twins rest =>
    obtain ⟨u, le, mirrors, agree⟩ := M.updateLease twins
    exact ⟨_, _, u, rfl, le, mirrors, rest u _ _ le agree⟩
  | listLeases rest =>
    exact ⟨_, _, t, rfl, le_rfl, reads _ _ rfl rfl, rest t _ _ le_rfl (M.listLeases orderly)⟩
  | getWorkload rest =>
    refine ⟨_, _, t, rfl, le_rfl, reads _ _ rfl rfl, ?_⟩
    rw [M.getWorkload]
    exact rest _

end Operation

/-! ## Attempts -/

namespace Attempt

/-- Two attempts go on alike: they end with the same error, or their results are related. -/
abbrev Matches {α β : Type} (a : Home) (R : Tally → α → β → Prop) (t : Tally) (x : Attempt α)
    (y : Attempt β) : Prop :=
  x.run.Matches a (fun u => Agree (R u)) t y.run

variable {α β γ δ : Type} {a : Home} {t : Tally} {R : Tally → α → β → Prop}
  {S : Tally → γ → δ → Prop} {role : Role}

theorem matches_pure {x : α} {y : β} (related : R t x y) :
    Matches a R t (pure x) (pure y) := .done (.ok related)

theorem matches_throw {e : PoolError} :
    Matches a R t (throw e : Attempt α) (throw e : Attempt β) := .done (.error e)

theorem matches_bind {x : Attempt α} {y : Attempt β} {f : α → Attempt γ} {g : β → Attempt δ}
    (H : Matches a R t x y)
    (follows : ∀ u b c, t ≤ u → R u b c → Matches a S u (f b) (g c)) :
    Matches a S t (x >>= f) (y >>= g) := by
  refine Operation.Matches.bind (x := x.run) (y := y.run) H ?_
  intro u r r' le agree
  cases agree with
  | ok related => exact follows u _ _ le related
  | error e => exact .done (.error e)

theorem matches_ask {q : Query} {f : q.Answer → Attempt α} {g : q.Answer → Attempt β}
    (permitted : a.Permits q) (follows : ∀ x, a.Admits q x → Matches a R t (f x) (g x)) :
    Matches a R t (ask q >>= f) (ask q >>= g) := .ask permitted follows

theorem matches_getLease {name : String} {f : Option Lease → Attempt α}
    {g : Option Lease → Attempt β} (named : role.Names a.pool name)
    (follows : ∀ u l l', t ≤ u → Option.Rel (Lease.Twins a role u) l l' →
      Matches a R u (f l) (g l')) :
    Matches a R t (call (.getLease a.ns name) >>= f) (call (.getLease a.ns name) >>= g) := by
  refine .getLease named ?_
  intro u r r' le agree
  cases agree with
  | ok related => exact follows u _ _ le related
  | error e => exact .done (.error e)

theorem matches_listLeases {f : List Lease → Attempt α} {g : List Lease → Attempt β}
    (follows : ∀ u ls ls', t ≤ u → Lease.TwinLists a .member u ls ls' →
      Matches a R u (f ls) (g ls')) :
    Matches a R t (call (.listLeases a.ns (memberSelector a.pool)) >>= f)
      (call (.listLeases a.ns (memberSelector a.pool)) >>= g) := by
  refine .listLeases ?_
  intro u r r' le agree
  cases agree with
  | ok related => exact follows u _ _ le related
  | error e => exact .done (.error e)

theorem matches_getWorkload {kind : WorkloadKind} {ns name : String}
    {f : Option Workload → Attempt α} {g : Option Workload → Attempt β}
    (follows : ∀ w, Matches a R t (f w) (g w)) :
    Matches a R t (call (.getWorkload kind ns name) >>= f)
      (call (.getWorkload kind ns name) >>= g) := by
  refine .getWorkload ?_
  intro r
  cases r with
  | ok w => exact follows w
  | error e => exact .done (.error e)

theorem matches_createLease {l : Lease} {f : Except PoolError Lease → Attempt α}
    {g : Except PoolError Lease → Attempt β} (isOf : l.IsOf a role)
    (follows : ∀ u r r', t ≤ u → Agree (Lease.Twins a role u) r r' →
      Matches a R u (f r) (g r')) :
    Matches a R t (reply (.createLease l) >>= f) (reply (.createLease l) >>= g) :=
  .createLease isOf follows

theorem matches_updateLease {l l' : Lease} {f : Except PoolError Lease → Attempt α}
    {g : Except PoolError Lease → Attempt β} (twins : l.Twins a role t l')
    (follows : ∀ u r r', t ≤ u → Agree (Lease.Twins a role u) r r' →
      Matches a R u (f r) (g r')) :
    Matches a R t (reply (.updateLease l) >>= f) (reply (.updateLease l') >>= g) :=
  .updateLease twins follows

theorem matches_orCrash {o : Option γ} {f : γ → Attempt α} {g : γ → Attempt β}
    (follows : ∀ x, o = some x → Matches a R t (f x) (g x)) :
    Matches a R t (orCrash o >>= f) (orCrash o >>= g) := by
  cases o with
  | none => exact .crash
  | some x => exact follows x rfl

theorem matches_outcome {x : Attempt α} {y : Attempt β} {f : Except PoolError α → Attempt γ}
    {g : Except PoolError β → Attempt δ} (H : Matches a R t x y)
    (follows : ∀ u r r', t ≤ u → Agree (R u) r r' → Matches a S u (f r) (g r')) :
    Matches a S t (outcome x >>= f) (outcome y >>= g) := by
  refine Operation.Matches.bind (x := (outcome x).run) (y := (outcome y).run)
    (R := fun u => Agree fun r r' => Agree (R u) r r') ?_ ?_
  · exact Operation.Matches.bind H fun u r r' _ agree => .done (.ok agree)
  · intro u r r' le agree
    cases agree with
    | ok related => exact follows u _ _ le related
    | error e => exact .done (.error e)

end Attempt

/-! ## Operations on leases -/

open Attempt

namespace Topology

variable {a : Home} {t : Tally}

/-- A look at the workloads has nothing to do with leases. -/
theorem matches_walk {pod : Identity} :
    Attempt.Matches a (fun _ => Eq) t (walk pod) (walk pod) := by
  refine matches_getWorkload fun found? => ?_
  cases found? with
  | none => exact matches_pure rfl
  | some found =>
    simp only
    split
    · exact matches_pure rfl
    · refine matches_getWorkload fun replicaSet? => ?_
      cases replicaSet? with
      | none => exact matches_pure rfl
      | some replicaSet =>
        simp only
        split
        · exact matches_pure rfl
        · refine matches_getWorkload fun owner? => ?_
          cases owner? with
          | none => exact matches_pure rfl
          | some owner => exact matches_ask trivial fun _ _ => matches_pure rfl

theorem matches_deployment? {pod : Identity} :
    Attempt.Matches a (fun _ => Eq) t (deployment? pod) (deployment? pod) := by
  refine matches_ask trivial fun known? _ => ?_
  cases known? with
  | none => exact matches_walk
  | some name =>
    refine matches_getWorkload fun found? => ?_
    cases found? with
    | none => exact matches_ask trivial fun _ _ => matches_walk
    | some found => exact matches_pure rfl

theorem matches_desiredReplicas? {topology : Topology} :
    Attempt.Matches a (fun _ => Eq) t topology.desiredReplicas? topology.desiredReplicas? := by
  cases topology with
  | fixed replicas => exact matches_pure rfl
  | deployment pod =>
    refine matches_bind matches_deployment? ?_
    rintro u found _ - rfl
    exact matches_pure rfl

theorem matches_owners {topology : Topology} :
    Attempt.Matches a (fun _ => Eq) t topology.owners topology.owners := by
  cases topology with
  | fixed replicas => exact matches_pure rfl
  | deployment pod =>
    refine matches_bind matches_deployment? ?_
    rintro u found _ - rfl
    exact matches_pure rfl

end Topology

namespace Pool

variable {p : Pool} {role : Role} {t : Tally} {l l' : Lease} {holder : String}

/-- Whether a lease has to be corrected, is the same for twins. -/
theorem isManaged_of_twins {a : Home} (twins : l.Twins a role t l') {labels : Labels}
    {duration : Int32} : isManaged l' labels duration = isManaged l labels duration := by
  have managed : ∀ l : Lease, isManaged l labels duration = true ↔
      l.metadata.labels.override labels = l.metadata.labels ∧ some duration = l.claim.duration := by
    rintro ⟨⟨_, _, _, _, _, _, _⟩, ⟨_, _, _, _, _, _⟩⟩
    simp only [isManaged, Lease.edit, decide_eq_true_eq, Lease.mk.injEq, Metadata.mk.injEq,
      Claim.mk.injEq, true_and, and_true]
  rw [Bool.eq_iff_iff, managed, managed, twins.labels, twins.claim]

theorem matches_correct (twins : l.Twins p.home role t l') :
    Attempt.Matches p.home (Lease.Twins p.home role) t
      (p.correct l (role.labels p.name) (p.duration.get role))
      (p.correct l' (role.labels p.name) (p.duration.get role)) := by
  unfold correct
  rw [isManaged_of_twins twins]
  split
  · exact matches_pure twins
  · refine matches_updateLease (twins.edit ?_) ?_
    · rintro labels duration ⟨⟩
      rfl
    · intro u r r' le agree
      cases agree with
      | ok written => exact matches_pure written
      | error e =>
        simp only
        split
        · rw [twins.name]
          refine matches_getLease twins.isOf.owned.2 ?_
          intro v latest latest' le' both
          cases both with
          | none => exact matches_pure (twins.mono (le.trans le'))
          | some latest => exact matches_pure latest
        · exact matches_throw

theorem isOf_newLease {name : String} {owners : List OwnerReference}
    (named : role.Names p.name name) : (p.newLease role name owners).IsOf p.home role :=
  ⟨⟨rfl, named⟩, rfl⟩

theorem matches_ensure {name : String} (named : role.Names p.name name) :
    Attempt.Matches p.home (Lease.Twins p.home role) t (p.ensure role name)
      (p.ensure role name) := by
  refine matches_getLease named ?_
  intro u l l' _ both
  cases both with
  | some twins => exact matches_correct twins
  | none =>
    refine matches_bind Topology.matches_owners ?_
    rintro v owners _ - rfl
    refine matches_createLease (isOf_newLease named) ?_
    intro w r r' _ agree
    cases agree with
    | ok created => exact matches_pure created
    | error e =>
      simp only
      split
      · refine matches_getLease named ?_
        intro _ l l' _ both
        cases both with
        | some twins => exact matches_pure twins
        | none => exact matches_throw
      · exact matches_throw

theorem matches_renew (twins : l.Twins p.home role t l') :
    Attempt.Matches p.home (fun u => Option.Rel (Lease.Twins p.home role u)) t (renew l holder)
      (renew l' holder) := by
  by_cases admits : l.admits holder = true
  case neg =>
    -- Neither of the two can be counted.
    rw [renew_of_not_admits admits, renew_of_not_admits (twins.admits holder ▸ admits)]
    exact matches_ask trivial fun _ _ => .crash
  rw [renew_of_admits admits, renew_of_admits ((twins.admits holder).trans admits)]
  refine matches_ask trivial fun now _ => ?_
  refine matches_updateLease (twins.edit nofun) ?_
  intro u r r' _ agree
  cases agree with
  | ok written => exact matches_pure (.some written)
  | error e =>
    simp only
    split
    · exact matches_pure .none
    · exact matches_throw

/-- A look at the present claim, whose outcome is the same for twins. -/
theorem matches_available {α : Type} {R : Tally → α → α → Prop} {now : Instant}
    {f g : Bool → Attempt α} (twins : l.Twins p.home role t l')
    (follows : ∀ free, Attempt.Matches p.home R t (f free) (g free)) :
    Attempt.Matches p.home R t (available l holder now >>= f) (available l' holder now >>= g) := by
  rw [available, available, twins.availableTo?]
  exact matches_orCrash fun free _ => follows free

theorem matches_renewByName {name : String} (named : role.Names p.name name) :
    Attempt.Matches p.home (fun u => Option.Rel (Lease.Twins p.home role u)) t
      (p.renewByName name holder) (p.renewByName name holder) := by
  refine matches_getLease named ?_
  intro u l l' _ both
  cases both with
  | none => exact matches_pure .none
  | some twins =>
    refine matches_ask trivial fun now _ => ?_
    refine matches_available twins fun free => ?_
    cases free with
    | true => exact matches_renew twins
    | false => exact matches_pure .none

theorem matches_acquireLeader :
    Attempt.Matches p.home (fun _ => Eq) t (p.acquireLeader holder (leaderLeaseName p.name))
      (p.acquireLeader holder (leaderLeaseName p.name)) := by
  have named : Role.leader.Names p.name (leaderLeaseName p.name) := rfl
  -- The lease is claimed in the same way whether it was read or made.
  have claims : ∀ u l l', l.Twins p.home .leader u l' →
      Attempt.Matches p.home (fun _ => Eq) u
        (do
          let now ← ask .now
          if ← available l holder now then
            let renewed ← renew l holder
            return renewed.isSome
          else return false)
        (do
          let now ← ask .now
          if ← available l' holder now then
            let renewed ← renew l' holder
            return renewed.isSome
          else return false) := by
    intro u l l' twins
    refine matches_ask trivial fun now _ => ?_
    refine matches_available twins fun free => ?_
    cases free with
    | false => exact matches_pure rfl
    | true =>
      refine matches_bind (matches_renew twins) ?_
      intro v renewed renewed' _ both
      cases both with
      | none => exact matches_pure rfl
      | some _ => exact matches_pure rfl
  refine matches_getLease named ?_
  intro u l l' _ both
  cases both with
  | some twins => exact claims u _ _ twins
  | none => exact matches_bind (matches_ensure named) fun v l l' _ twins => claims v l l' twins

/-- Twins stay twins as more versions come to stand for each other. -/
theorem twins_mono {a : Home} {u : Tally} {pairs : List (Lease × Lease)}
    (twins : ∀ x ∈ pairs, x.1.Twins a role t x.2) (le : t ≤ u) :
    ∀ x ∈ pairs, x.1.Twins a role u x.2 := fun x hx => (twins x hx).mono le

theorem matches_renewFirst {pairs : List (Lease × Lease)}
    (twins : ∀ x ∈ pairs, x.1.Twins p.home role t x.2) :
    Attempt.Matches p.home (fun u => Option.Rel (Lease.Twins p.home role u)) t
      (renewFirst holder (pairs.map (·.1))) (renewFirst holder (pairs.map (·.2))) := by
  induction pairs generalizing t with
  | nil => exact matches_pure .none
  | cons x rest ih =>
    obtain ⟨first, others⟩ := List.forall_mem_cons.1 twins
    refine matches_bind (matches_renew first) ?_
    intro u renewed renewed' le both
    cases both with
    | some renewed => exact matches_pure (.some renewed)
    | none => exact ih (twins_mono others le)

theorem matches_claimFirst {now : Instant} {pairs : List (Lease × Lease)}
    (twins : ∀ x ∈ pairs, x.1.Twins p.home role t x.2) :
    Attempt.Matches p.home (fun u => Option.Rel (Lease.Twins p.home role u)) t
      (claimFirst holder now (pairs.map (·.1))) (claimFirst holder now (pairs.map (·.2))) := by
  induction pairs generalizing t with
  | nil => exact matches_pure .none
  | cons x rest ih =>
    obtain ⟨first, others⟩ := List.forall_mem_cons.1 twins
    refine matches_available first fun free => ?_
    cases free with
    | false => exact ih others
    | true =>
      refine matches_bind (matches_renew first) ?_
      intro u claimed claimed' le both
      cases both with
      | some claimed => exact matches_pure (.some claimed)
      | none => exact ih (twins_mono others le)

/-- Twins are put in order of their names in the same way. -/
theorem twinLists_byName {a : Home} {ls ls' : List Lease}
    (twins : Lease.TwinLists a role t ls ls') :
    Lease.TwinLists a role t (byName ls) (byName ls') := by
  obtain ⟨pairs, twins, rfl, rfl⟩ := twins
  refine ⟨pairs.mergeSort fun x y => x.1.name ≤ y.1.name, ?_, ?_, ?_⟩
  · intro x hx
    exact twins x (List.mem_mergeSort.1 hx)
  · rw [byName, List.map_mergeSort]
    exact fun _ _ _ _ => rfl
  · rw [byName, List.map_mergeSort]
    intro x hx y hy
    rw [(twins x hx).name, (twins y hy).name]

/-- Twins are held by the same. -/
theorem twinLists_isHeldBy {a : Home} {ls ls' : List Lease}
    (twins : Lease.TwinLists a role t ls ls') (holder : String) :
    Lease.TwinLists a role t (ls.filter fun l => l.isHeldBy holder)
      (ls'.filter fun l => l.isHeldBy holder) := by
  obtain ⟨pairs, twins, rfl, rfl⟩ := twins
  refine ⟨pairs.filter fun x => x.1.isHeldBy holder, ?_, ?_, ?_⟩
  · intro x hx
    exact twins x (List.mem_of_mem_filter hx)
  · exact List.filter_map
  · rw [List.filter_map]
    refine congrArg _ (List.filter_congr fun x hx => ?_)
    exact (twins x hx).isHeldBy holder

theorem matches_acquireMember :
    Attempt.Matches p.home (fun u => Option.Rel (Lease.Twins p.home .member u)) t
      (p.acquireMember holder p.name) (p.acquireMember holder p.name) := by
  refine matches_listLeases ?_
  intro u ls ls' _ twins
  have sorted := twinLists_byName twins
  generalize byName ls = sortedLs at sorted
  generalize byName ls' = sortedLs' at sorted
  have held := twinLists_isHeldBy sorted holder
  obtain ⟨pairs, all, rfl, rfl⟩ := sorted
  obtain ⟨heldPairs, allHeld, same, same'⟩ := held
  cases pairs with
  | nil => exact matches_pure .none
  | cons x rest =>
    refine matches_bind (same ▸ same' ▸ matches_renewFirst allHeld) ?_
    intro v renewed renewed' le both
    cases both with
    | some renewed => exact matches_pure (.some renewed)
    | none => exact matches_ask trivial fun now _ => matches_claimFirst (twins_mono all le)

theorem matches_release {name : String} (named : role.Names p.name name) :
    Attempt.Matches p.home (fun _ => Eq) t (p.release holder name) (p.release holder name) := by
  refine matches_getLease named ?_
  intro u l l' _ both
  cases both with
  | none => exact matches_pure rfl
  | some twins =>
    simp only [twins.isHeldBy]
    split
    · exact matches_pure rfl
    · refine matches_updateLease (twins.edit nofun) ?_
      intro v r r' _ agree
      cases agree with
      | ok _ => exact matches_pure rfl
      | error e =>
        simp only
        split
        · exact matches_pure rfl
        · split
          · exact matches_pure rfl
          · exact matches_throw

end Pool

/-! ## What participants do -/

namespace Participant

variable {c : Participant} {t : Tally}

theorem matches_ensureMembers {ordinals : List Nat} :
    Attempt.Matches c.pool.home (fun _ => Eq) t (c.ensureMembers ordinals)
      (c.ensureMembers ordinals) := by
  induction ordinals generalizing t with
  | nil => exact matches_pure rfl
  | cons ordinal rest ih =>
    have named : Role.member.Names c.pool.name (memberLeaseName c.pool.name ordinal) :=
      ⟨ordinal, rfl⟩
    exact matches_outcome (Pool.matches_ensure named) fun _ _ _ _ _ => ih

theorem matches_reconcile :
    Attempt.Matches c.pool.home (fun _ => Eq) t c.reconcile c.reconcile := by
  refine matches_bind Pool.matches_acquireLeader ?_
  rintro u leads _ - rfl
  cases leads with
  | false => exact matches_pure rfl
  | true =>
    refine matches_bind Topology.matches_desiredReplicas? ?_
    rintro v replicas? _ - rfl
    cases replicas? with
    | none => exact matches_pure rfl
    | some replicas => exact matches_bind matches_ensureMembers fun _ _ _ _ _ => matches_pure rfl

theorem matches_acquire :
    Attempt.Matches c.pool.home (fun _ => Eq) t c.acquire c.acquire := by
  refine matches_ask trivial fun held? admitted => ?_
  cases held? with
  | some held =>
    have named : Role.member.Names c.pool.name held := admitted held rfl
    refine matches_bind (Pool.matches_renewByName named) ?_
    intro u renewed renewed' _ both
    cases both with
    | some _ => exact matches_pure rfl
    | none => exact matches_ask named fun _ _ => matches_pure rfl
  | none =>
    refine matches_bind Pool.matches_acquireMember ?_
    intro u acquired acquired' _ both
    cases both with
    | none => exact matches_pure rfl
    | some twins =>
      simp only
      rw [twins.name]
      exact matches_ask twins.isOf.owned.2 fun _ _ => matches_pure rfl

theorem matches_work {role : Role} :
    Attempt.Matches c.pool.home (fun _ => Eq) t (c.work role) (c.work role) := by
  cases role with
  | leader => exact matches_reconcile
  | member => exact matches_acquire

theorem matches_cycle {role : Role} :
    (c.cycle role).Matches c.pool.home (fun _ => Eq) t (c.cycle role) := by
  unfold cycle
  split
  · refine .ask trivial fun entered _ => ?_
    cases entered with
    | false => exact .done rfl
    | true =>
      refine Operation.Matches.bind (x := (c.work role).run) (y := (c.work role).run)
        matches_work ?_
      intro u r r' _ _
      exact .ask trivial fun _ _ => .done rfl
  · exact .done rfl

theorem matches_releaseLeader :
    c.releaseLeader.Matches c.pool.home (fun _ => Eq) t c.releaseLeader := by
  have named : Role.leader.Names c.pool.name c.leaderLease := rfl
  unfold releaseLeader
  split
  · exact Operation.Matches.bind (Pool.matches_release named) fun _ _ _ _ _ => .done rfl
  · exact .done rfl

theorem matches_releaseMember :
    c.releaseMember.Matches c.pool.home (fun _ => Eq) t c.releaseMember := by
  refine .ask trivial fun held? admitted => ?_
  cases held? with
  | none => exact .done rfl
  | some held =>
    have named : Role.member.Names c.pool.name held := admitted held rfl
    refine Operation.Matches.bind (x := (c.pool.release c.pod held).run)
      (y := (c.pool.release c.pod held).run) (Pool.matches_release named) ?_
    intro u r r' _ agree
    cases agree with
    | error e => exact .done rfl
    | ok same =>
      subst same
      split
      · exact .ask named fun _ _ => .done rfl
      · exact .done rfl

theorem matches_release {role : Role} :
    (c.release role).Matches c.pool.home (fun _ => Eq) t (c.release role) := by
  cases role with
  | leader => exact matches_releaseLeader
  | member => exact matches_releaseMember

end Participant

/-- **What a controller does over two stores** with the same leases of its pool, it does alike. -/
theorem Job.matches_operation {c : Participant} {job : Job} (controls : job.isOfController = true)
    {t : Tally} :
    (job.operation c).Matches c.pool.home (fun _ => Eq) t (job.operation c) := by
  cases job with
  | cycle role => exact Participant.matches_cycle.bind fun _ _ _ _ _ => .done rfl
  | release role => exact Participant.matches_release.bind fun _ _ _ _ _ => .done rfl
  | _ => contradiction

end LeasePool
