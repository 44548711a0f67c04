import LeasePool.Proofs.Fleet.Terms
import LeasePool.Proofs.Lease.Claims

/-!
# What participants write

Whatever a participant does, it writes leases in four ways only: it creates one, or it edits one
that was stored before, by a correction, a claim or a release, and for each of them there is a
reason. Which names and holders they are about depends on the job and is its warrant. This is
all that other participants have to know.

## Main definitions

* `Warrant`: what a job may do to which leases.
* `Warrant.Justifies`, `Warrant.Allows`: an edit with a reason, a call within a warrant.
* `Warrant.Permits`: a question within a warrant.
* `Job.warrant`: the warrant of each job.
* `Fleet.IsNew`: a fleet at its beginning.

## Main statements

* `Job.meets`: every job stays within its warrant.
* `Fleet.isDisciplined_of_reaches`: so do all replicas, whatever the interleaving.
-/

namespace LeasePool

/-- What a job may do to which leases. -/
structure Warrant where
  /-- The leases by role and name that may be created and corrected. -/
  manages : Role → String → Prop := fun _ _ => False
  /-- The holders for whom leases of which names may be claimed. -/
  claims : String → String → Prop := fun _ _ => False
  /-- The holders whose claim on leases of which names may be given up. -/
  releases : String → String → Prop := fun _ _ => False
  /-- Whether claims are made without a look at the present claim. -/
  isBlind : Prop := False
  /-- The roles of which a cycle may be entered and left. -/
  enters : Role → Prop := fun _ => False
  /-- Whether events may be announced. -/
  announces : Prop := False

/-- The reasons for which a participant of a pool edits a lease that was stored once. -/
inductive Warrant.Justifies (W : Warrant) (p : Pool) (h : History) (l : Lease) : Edit → Prop
  | manage {role : Role} (manages : W.manages role l.name) (ns : l.metadata.ns = p.ns)
    (wrong : Pool.isManaged l (role.labels p.name) (p.duration.get role) = false) :
    W.Justifies p h l (.manage (role.labels p.name) (p.duration.get role))
  | claim {holder : String} {now : Instant} (claims : W.claims holder l.name) (past : now ≤ h.now)
    (counts : l.admits holder = true) (free : W.isBlind ∨ l.isHeldBy holder = true ∨
      ∃ seen ≤ h.now, l.availableTo? holder seen = some true) :
    W.Justifies p h l (.claim holder (.utc now))
  | release {holder : String} (releases : W.releases holder l.name)
    (held : l.isHeldBy holder = true) : W.Justifies p h l .release

/-- A call that a warrant allows to a participant of a pool. -/
inductive Warrant.Allows (W : Warrant) (p : Pool) (h : History) : StoreCall → Prop
  | getLease {ns name : String} : W.Allows p h (.getLease ns name)
  | listLeases {ns : String} {selector : Labels} : W.Allows p h (.listLeases ns selector)
  | getWorkload {kind : WorkloadKind} {ns name : String} : W.Allows p h (.getWorkload kind ns name)
  | create {role : Role} {name : String} {owners : List OwnerReference}
    (manages : W.manages role name) : W.Allows p h (.createLease (p.newLease role name owners))
  | update {l : Lease} {e : Edit} (known : l ∈ h.leases) (why : W.Justifies p h l e) :
    W.Allows p h (.updateLease (l.edit e))

/-- A question to the process that a warrant permits. -/
def Warrant.Permits (W : Warrant) : Query → Prop
  | .enter role | .leave role => W.enters role
  | .announce .. => W.announces
  | .now | .knownDeployment | .setKnownDeployment _ | .heldLease => True

/-- The terms on which an operation keeps to a warrant. It counts on nothing but that versions
tell leases apart and that the history grows. -/
def Warrant.terms (W : Warrant) (p : Pool) (replica errand : Nat) : Terms where
  replica
  errand
  holds h := h.IsSound ∧ h.scene.ticking = false
  rely := History.Grows
  mayAsk _ q := W.Permits q
  mayCall := W.Allows p
  mayCrash _ := True
  refl := .refl
  trans := .trans
  grows := id

/-! ## Replies -/

namespace History

/-- What the clock of a process shows while it stands still between moves. -/
theorem eq_of_ask_now {h k : History} {i : Nat} {t : Instant} (still : h.scene.ticking = false)
    (a : h.ask i .now = some (t, k)) : t = h.now ∧ k = h := by
  simp only [ask, Scene.ask, Scene.now?, still] at a
  cases a
  exact ⟨rfl, rfl⟩

/-- What was read is what is stored. -/
theorem get?_of_getLease {h : History} {ns name : String} {l? : Option Lease}
    (hr : h.reply (.getLease ns name) = .ok l?) :
    h.scene.store.leases.get? ⟨ns, name⟩ = l? := by
  simp only [reply, MemoryStore.answer] at hr
  split at hr
  · contradiction
  · exact Except.ok.inj hr

/-- A lease that was read is one that is stored under its key. -/
theorem IsSound.of_getLease {h : History} (k : h.IsSound) {ns name : String} {l : Lease}
    (hr : h.reply (.getLease ns name) = .ok (some l)) :
    h.scene.store.leases.get? l.key = some l ∧ l.key = ⟨ns, name⟩ ∧ l ∈ h.leases := by
  have found := get?_of_getLease hr
  have key := k.key _ _ found
  exact ⟨key ▸ found, key, k.stored _ _ found⟩

/-- A lease that was listed is one that is stored under its key, in the namespace, and its labels
are those asked for. -/
theorem IsSound.of_listLeases {h : History} (k : h.IsSound) {ns : String} {selector : Labels}
    {ls : List Lease} (hr : h.reply (.listLeases ns selector) = .ok ls) (l : Lease) :
    l ∈ ls ↔ h.scene.store.leases.get? l.key = some l ∧ l.metadata.ns = ns ∧
      selector.selects l.metadata.labels = true := by
  simp only [reply, MemoryStore.answer] at hr
  split at hr
  · contradiction
  · rw [← Except.ok.inj hr]
    simp only [MemoryStore.leasesOf, List.mem_filter, List.mem_map, Prod.exists,
      decide_eq_true_eq, ← Table.get?_eq_some_iff]
    constructor
    · rintro ⟨⟨key, m, ⟨found, rfl⟩, rfl⟩, labels⟩
      have same := k.key _ _ found
      refine ⟨same ▸ found, ?_, labels⟩
      rw [← same]; rfl
    · rintro ⟨found, rfl, labels⟩
      exact ⟨⟨l.key, l, ⟨found, rfl⟩, rfl⟩, labels⟩

/-- A lease that was updated or created is among the stored ones from then on. -/
theorem mem_leases_call {h : History} {i n : Nat} {c : StoreCall} {l : Lease}
    (hs : c.stored? (h.reply c) = some l) : l ∈ (h.call i n c).leases := by
  rw [leases_call, hs]
  exact List.mem_append_left _ (List.mem_singleton_self l)

/-- A stored lease lies under the key of the one that was to be written. -/
theorem key_of_stored {h : History} {c : StoreCall} {a l : Lease} (hw : c.written? = some a)
    (hs : c.stored? (h.reply c) = some l) : l.key = a.key := by
  rcases MemoryStore.stored?_answer hs with ⟨b, rfl, -, rfl, -⟩ | ⟨b, -, rfl, -, -, rfl, -⟩ <;>
    (obtain rfl := Option.some.inj hw; rfl)

end History

/-- **A lease that was stored by a call within a warrant** is a new one, or an edit of the very
lease that was stored before. -/
theorem Warrant.Allows.of_stored {W : Warrant} {p : Pool} {h : History} {c : StoreCall} {l : Lease}
    (A : W.Allows p h c) (k : h.IsSound) (hs : c.stored? (h.reply c) = some l) :
    (∃ role name owners, c = .createLease (p.newLease role name owners) ∧ W.manages role name ∧
      h.scene.store.leases.get? ⟨p.ns, name⟩ = none ∧
      l = h.scene.store.stamped (h.scene.store.created (p.newLease role name owners))) ∨
    ∃ b e, c = .updateLease (b.edit e) ∧ h.scene.store.leases.get? b.key = some b ∧
      l = h.scene.store.stamped (b.edit e) ∧ W.Justifies p h b e := by
  rcases MemoryStore.stored?_answer hs with ⟨a, rfl, free, hl, -⟩ | ⟨a, b, rfl, hb, shows, hl, -⟩
  · cases A with
    | @create role name owners manages =>
      exact .inl ⟨role, name, owners, rfl, manages, free, hl⟩
  · cases A with
    | @update m e known why =>
      obtain rfl := k.eq_of_shows known Lease.key_edit Lease.version_edit hb shows
      rw [Lease.key_edit] at hb
      exact .inr ⟨b, e, rfl, hb, hl, why⟩

/-! ## Topology -/

section

variable {W : Warrant} {p : Pool} {i n : Nat} {h : History}

open Attempt

namespace Topology

/-- A look at the workloads is within every warrant. -/
theorem meets_walk (pod : Identity) :
    (walk pod).run.Meets (W.terms p i n) (Yields fun _ _ => True) h := by
  refine meets_call_yields fun h' l => ⟨.getWorkload, ?_⟩
  intro pod? _
  cases pod? with
  | none => exact fun _ _ => trivial
  | some found =>
    simp only
    split
    · exact fun _ _ => trivial
    · refine meets_call_yields fun h' l => ⟨.getWorkload, ?_⟩
      intro set? _
      cases set? with
      | none => exact fun _ _ => trivial
      | some set =>
        simp only
        split
        · exact fun _ _ => trivial
        · refine meets_call_yields fun h' l => ⟨.getWorkload, ?_⟩
          intro owner? _
          cases owner? with
          | none => exact fun _ _ => trivial
          | some owner => exact meets_ask fun h' l => ⟨trivial, fun _ _ _ _ _ => trivial⟩

theorem meets_deployment? (pod : Identity) :
    (deployment? pod).run.Meets (W.terms p i n) (Yields fun _ _ => True) h := by
  refine meets_ask fun h' l => ⟨trivial, ?_⟩
  intro known? k _
  cases known? with
  | none => exact meets_walk pod
  | some name =>
    refine meets_call_yields fun h' l => ⟨.getWorkload, ?_⟩
    intro found? _
    cases found? with
    | some found => exact fun _ _ => trivial
    | none => exact meets_ask fun h' l => ⟨trivial, fun _ _ _ => meets_walk pod⟩

theorem meets_desiredReplicas? (t : Topology) :
    t.desiredReplicas?.run.Meets (W.terms p i n) (Yields fun _ _ => True) h := by
  cases t with
  | fixed replicas => exact fun _ _ => trivial
  | deployment pod =>
    refine meets_bind_yields ((meets_deployment? pod).weaken ?_)
    intro r k _
    cases r with
    | error e => trivial
    | ok found => exact fun _ _ => trivial

theorem meets_owners (t : Topology) :
    t.owners.run.Meets (W.terms p i n) (Yields fun _ _ => True) h := by
  cases t with
  | fixed replicas => exact fun _ _ => trivial
  | deployment pod =>
    refine meets_bind_yields ((meets_deployment? pod).weaken ?_)
    intro r k _
    cases r with
    | error e => trivial
    | ok found => exact fun _ _ => trivial

end Topology

/-! ## Leases -/

namespace Pool

/-- The lease is one of those ever stored under a key. -/
def IsAt (key : LeaseKey) (l : Lease) (h : History) : Prop :=
  l ∈ h.leases ∧ l.key = key

/-- A correction is made of a lease that is wrong, and only if the warrant says so. -/
theorem meets_correct {role : Role} {name : String} {l : Lease} (hm : W.manages role name)
    (hl : IsAt ⟨p.ns, name⟩ l h) :
    (p.correct l (role.labels p.name) (p.duration.get role)).run.Meets (W.terms p i n)
      (Yields (IsAt ⟨p.ns, name⟩)) h := by
  obtain ⟨known, key⟩ := hl
  have ns : l.metadata.ns = p.ns := congrArg LeaseKey.ns key
  have named : l.name = name := congrArg LeaseKey.name key
  unfold correct
  split
  · intro k later
    exact ⟨later.1.leases known, key⟩
  · rename_i wrong
    refine meets_reply fun k later =>
      ⟨.update (later.1.leases known) (.manage (named ▸ hm) ns (by simpa using wrong)), ?_⟩
    split
    · rename_i written hr
      have hs : StoreCall.stored? _ (k.reply _) = some written := congrArg _ hr
      refine fun k' later' => ⟨later'.1.leases (History.mem_leases_call hs), ?_⟩
      exact ((History.key_of_stored rfl hs).trans Lease.key_edit).trans key
    · split
      · refine meets_call_yields fun k' later' => ⟨.getLease, ?_⟩
        intro latest? hr
        cases latest? with
        | none =>
          refine fun k'' later'' => ⟨later''.1.leases ?_, key⟩
          have old := later'.1.leases ((History.grows_call k i n _).leases (later.1.leases known))
          exact (History.grows_call k' i n _).leases old
        | some latest =>
          rw [named] at hr
          obtain ⟨-, at_, stored⟩ := later'.2.1.of_getLease hr
          intro k'' later''
          exact ⟨later''.1.leases ((History.grows_call k' i n _).leases stored), at_⟩
      · exact fun _ _ => trivial

/-- A lease that should exist is created or corrected, and only if the warrant says so. -/
theorem meets_ensure {role : Role} {name : String} (hm : W.manages role name) :
    (p.ensure role name).run.Meets (W.terms p i n) (Yields (IsAt ⟨p.ns, name⟩)) h := by
  refine meets_call_yields fun k later => ⟨.getLease, ?_⟩
  intro found? hr
  cases found? with
  | some found =>
    obtain ⟨-, key, stored⟩ := later.2.1.of_getLease hr
    exact meets_correct hm ⟨(History.grows_call k i n _).leases stored, key⟩
  | none =>
    refine meets_bind_yields (p.topology.meets_owners.weaken ?_)
    intro owners? k _
    cases owners? with
    | error e => trivial
    | ok owners =>
      refine meets_reply fun k later => ⟨.create hm, ?_⟩
      split
      · rename_i created hr
        have hs : StoreCall.stored? _ (k.reply _) = some created := congrArg _ hr
        refine fun k' later' => ⟨later'.1.leases (History.mem_leases_call hs), ?_⟩
        exact History.key_of_stored (a := p.newLease role name owners) rfl hs
      · split
        · refine meets_call_yields fun k' later' => ⟨.getLease, ?_⟩
          intro found? hr
          cases found? with
          | none => exact fun _ _ => trivial
          | some found =>
            obtain ⟨-, key, stored⟩ := later'.2.1.of_getLease hr
            intro k'' later''
            exact ⟨later''.1.leases ((History.grows_call k' i n _).leases stored), key⟩
        · exact fun _ _ => trivial

/-- A claim is made of a lease that was available, or held by the claimant before, or the warrant
does not ask for a look. -/
theorem meets_renew {l : Lease} {holder : String} (hc : W.claims holder l.name)
    (known : l ∈ h.leases)
    (free : W.isBlind ∨ l.isHeldBy holder = true ∨
      ∃ seen ≤ h.now, l.availableTo? holder seen = some true) :
    (renew l holder).run.Meets (W.terms p i n) (Yields fun _ _ => True) h := by
  refine meets_ask fun h₁ l₁ => ⟨trivial, ?_⟩
  intro now k a
  obtain ⟨rfl, rfl⟩ := History.eq_of_ask_now l₁.2.2 a
  refine meets_orCrash (fun claimed counted => ?_) fun _ _ _ => trivial
  obtain ⟨counts, rfl⟩ := Lease.claimed?_eq_some_iff.1 counted
  refine meets_reply fun h₂ l₂ => ⟨?_, ?_⟩
  · have grown := l₁.1.trans l₂.1
    refine .update (grown.leases known)
      (.claim hc l₂.1.now counts (free.imp_right (Or.imp_right ?_)))
    rintro ⟨seen, before, available⟩
    exact ⟨seen, Instant.le_trans before grown.now, available⟩
  · split
    · exact fun _ _ => trivial
    · split <;> exact fun _ _ => trivial

/-- A look at the present claim, whose outcome a claim can go by. -/
theorem meets_available {Q : Except PoolError β → History → Prop} {l : Lease} {holder : String}
    {now : Instant} {f : Bool → Attempt β}
    (yes : l.availableTo? holder now = some true → (f true).run.Meets (W.terms p i n) Q h)
    (no : (f false).run.Meets (W.terms p i n) Q h) :
    (available l holder now >>= f).run.Meets (W.terms p i n) Q h := by
  refine meets_orCrash ?_ fun _ _ _ => trivial
  intro free ha
  cases free with
  | true => exact yes ha
  | false => exact no

theorem meets_renewByName {name holder : String} (hc : W.claims holder name) :
    (p.renewByName name holder).run.Meets (W.terms p i n) (Yields fun _ _ => True) h := by
  refine meets_call_yields fun h₁ l₁ => ⟨.getLease, ?_⟩
  intro found? hr
  cases found? with
  | none => exact fun _ _ => trivial
  | some l =>
    obtain ⟨-, key, stored⟩ := l₁.2.1.of_getLease hr
    refine meets_ask fun h₂ l₂ => ⟨trivial, ?_⟩
    intro now k a
    obtain ⟨rfl, rfl⟩ := History.eq_of_ask_now l₂.2.2 a
    refine meets_available ?_ fun _ _ => trivial
    intro ha
    have named : l.name = name := congrArg LeaseKey.name key
    refine meets_renew (named ▸ hc) ?_ (.inr (.inr ⟨_, Instant.le_refl _, ha⟩))
    exact l₂.1.leases ((History.grows_call h₁ i n _).leases stored)

theorem meets_acquireLeader {name holder : String} (hm : W.manages .leader name)
    (hc : W.claims holder name) :
    (p.acquireLeader holder name).run.Meets (W.terms p i n) (Yields fun _ _ => True) h := by
  have claim : ∀ l k, IsAt ⟨p.ns, name⟩ l k → (do
      let now ← ask .now
      if ← available l holder now then
        let renewed ← renew l holder
        return renewed.isSome
      else return false : Attempt Bool).run.Meets (W.terms p i n) (Yields fun _ _ => True) k := by
    intro l k ⟨known, key⟩
    have named : l.name = name := congrArg LeaseKey.name key
    refine meets_ask fun h₂ l₂ => ⟨trivial, ?_⟩
    intro now k a
    obtain ⟨rfl, rfl⟩ := History.eq_of_ask_now l₂.2.2 a
    refine meets_available ?_ fun _ _ => trivial
    intro ha
    refine meets_bind_yields ((meets_renew (named ▸ hc) (l₂.1.leases known)
      (.inr (.inr ⟨_, Instant.le_refl _, ha⟩))).weaken ?_)
    intro r k _
    cases r with
    | error e => trivial
    | ok renewed => exact fun _ _ => trivial
  refine meets_call_yields fun h₁ l₁ => ⟨.getLease, ?_⟩
  intro found? hr
  cases found? with
  | some l =>
    obtain ⟨-, key, stored⟩ := l₁.2.1.of_getLease hr
    exact claim l _ ⟨(History.grows_call h₁ i n _).leases stored, key⟩
  | none =>
    refine meets_bind_yields ((meets_ensure hm).weaken ?_)
    intro l? k hl
    cases l? with
    | error e => trivial
    | ok l => exact claim l k hl

/-- Claims of the leases of a list, all of which the claimant holds. -/
theorem meets_renewFirst {holder : String} {ls : List Lease}
    (H : ∀ l ∈ ls, W.claims holder l.name ∧ l ∈ h.leases ∧ l.isHeldBy holder = true) :
    (renewFirst holder ls).run.Meets (W.terms p i n) (Yields fun _ _ => True) h := by
  induction ls generalizing h with
  | nil => exact fun _ _ => trivial
  | cons l ls ih =>
    obtain ⟨hc, known, held⟩ := H l List.mem_cons_self
    refine meets_bind_yields (((meets_renew hc known (.inr (.inl held))).remember
      (.refl h)).weaken ?_)
    intro r k hr
    rcases r with e | _ | renewed
    · trivial
    · refine ih ?_
      intro m hm
      obtain ⟨claims, known, held⟩ := H m (List.mem_cons_of_mem _ hm)
      exact ⟨claims, hr.1.leases known, held⟩
    · exact fun _ _ => trivial

/-- Claims of the leases of a list that are available. -/
theorem meets_claimFirst {holder : String} {now : Instant} {ls : List Lease} (past : now ≤ h.now)
    (H : ∀ l ∈ ls, W.claims holder l.name ∧ l ∈ h.leases) :
    (claimFirst holder now ls).run.Meets (W.terms p i n) (Yields fun _ _ => True) h := by
  induction ls generalizing h with
  | nil => exact fun _ _ => trivial
  | cons l ls ih =>
    obtain ⟨hc, known⟩ := H l List.mem_cons_self
    refine meets_available ?_ (ih past fun m hm => H m (List.mem_cons_of_mem _ hm))
    intro ha
    refine meets_bind_yields (((meets_renew hc known (.inr (.inr ⟨_, past, ha⟩))).remember
      (.refl h)).weaken ?_)
    intro r k hr
    rcases r with e | _ | claimed
    · trivial
    · refine ih (Instant.le_trans past hr.1.now) ?_
      intro m hm
      obtain ⟨claims, known⟩ := H m (List.mem_cons_of_mem _ hm)
      exact ⟨claims, hr.1.leases known⟩
    · exact fun _ _ => trivial

theorem mem_byName {l : Lease} {ls : List Lease} : l ∈ byName ls ↔ l ∈ ls :=
  List.mem_mergeSort

theorem meets_acquireMember {holder pool : String} (hc : ∀ name, W.claims holder name) :
    (p.acquireMember holder pool).run.Meets (W.terms p i n) (Yields fun _ _ => True) h := by
  refine meets_call_yields fun h₁ l₁ => ⟨.listLeases, ?_⟩
  intro ls hr
  have known : ∀ l ∈ byName ls, l ∈ (h₁.call i n (.listLeases p.ns (memberSelector pool))).leases :=
    fun l hl => (History.grows_call h₁ i n _).leases
      (l₁.2.1.stored _ _ ((l₁.2.1.of_listLeases hr l).1 (mem_byName.1 hl)).1)
  generalize byName ls = sorted at known
  cases sorted with
  | nil => exact fun _ _ => trivial
  | cons first rest =>
    refine meets_bind_yields (((meets_renewFirst ?_).remember (.refl _)).weaken
      ?_)
    · intro l hl
      obtain ⟨member, held⟩ := List.mem_filter.1 hl
      exact ⟨hc _, known l member, held⟩
    · intro r k hr
      rcases r with e | _ | renewed
      · trivial
      · refine meets_ask fun h₂ l₂ => ⟨trivial, ?_⟩
        intro now k' a
        obtain ⟨rfl, rfl⟩ := History.eq_of_ask_now l₂.2.2 a
        exact meets_claimFirst (Instant.le_refl _) fun l hl =>
          ⟨hc _, l₂.1.leases (hr.1.leases (known l hl))⟩
      · exact fun _ _ => trivial

theorem meets_acquireMemberHinted {holder pool known : String}
    (hc : ∀ name, W.claims holder name) :
    (p.acquireMemberHinted holder pool known).run.Meets (W.terms p i n) (Yields fun _ _ => True)
      h := by
  refine meets_bind_yields ((meets_renewByName (hc known)).weaken ?_)
  intro r k _
  rcases r with e | _ | renewed
  · trivial
  · exact meets_acquireMember hc
  · exact fun _ _ => trivial

/-- A claim is given up by its holder only. -/
theorem meets_release {holder name : String} (hw : W.releases holder name) :
    (p.release holder name).run.Meets (W.terms p i n) (Yields fun _ _ => True) h := by
  refine meets_call_yields fun h₁ l₁ => ⟨.getLease, ?_⟩
  intro found? hr
  cases found? with
  | none => exact fun _ _ => trivial
  | some l =>
    obtain ⟨-, key, stored⟩ := l₁.2.1.of_getLease hr
    have named : l.name = name := congrArg LeaseKey.name key
    simp only
    split
    · exact fun _ _ => trivial
    · rename_i held
      refine meets_reply fun h₂ l₂ =>
        ⟨.update ?_ (.release (named ▸ hw) (by simpa using held)), ?_⟩
      · exact l₂.1.leases ((History.grows_call h₁ i n _).leases stored)
      · split
        · exact fun _ _ => trivial
        · split
          · exact fun _ _ => trivial
          · split <;> exact fun _ _ => trivial

end Pool

/-! ## Jobs -/

/-- An answer nobody looks at keeps to the terms as the operation does. -/
theorem Job.meets_answering {α : Type} {T : Terms} {f : α → Answer} {x : Attempt α}
    (H : x.run.Meets T (Yields fun _ _ => True) h) :
    (Job.answering f x).Meets T (fun _ _ => True) h :=
  Operation.meets_bind (H.weaken fun _ _ _ _ _ => trivial)

namespace Participant

variable {c : Participant}

theorem meets_ensureMembers {ordinals : List Nat}
    (hm : ∀ ordinal, W.manages .member (memberLeaseName c.pool.name ordinal)) :
    (c.ensureMembers ordinals).run.Meets (W.terms c.pool i n) (Yields fun _ _ => True) h := by
  induction ordinals generalizing h with
  | nil => exact fun _ _ => trivial
  | cons ordinal rest ih =>
    exact meets_outcome ((Pool.meets_ensure (hm ordinal)).weaken fun _ _ _ => ih)

theorem meets_reconcile (hl : W.manages .leader c.leaderLease) (hc : W.claims c.pod c.leaderLease)
    (hm : ∀ ordinal, W.manages .member (memberLeaseName c.pool.name ordinal)) :
    c.reconcile.run.Meets (W.terms c.pool i n) (Yields fun _ _ => True) h := by
  refine meets_bind_yields ((Pool.meets_acquireLeader hl hc).weaken ?_)
  intro r k _
  rcases r with e | _ | _
  · trivial
  · exact fun _ _ => trivial
  · refine meets_bind_yields (c.pool.topology.meets_desiredReplicas?.weaken ?_)
    intro r k _
    rcases r with e | _ | replicas
    · trivial
    · exact fun _ _ => trivial
    · refine meets_bind_yields ((meets_ensureMembers hm).weaken ?_)
      intro r k _
      cases r with
      | error e => trivial
      | ok _ => exact fun _ _ => trivial

theorem meets_acquire (hc : ∀ name, W.claims c.pod name) (ha : W.announces) :
    c.acquire.run.Meets (W.terms c.pool i n) (Yields fun _ _ => True) h := by
  refine meets_ask fun h₁ l₁ => ⟨trivial, ?_⟩
  intro held? k _
  cases held? with
  | some held =>
    refine meets_bind_yields ((Pool.meets_renewByName (hc held)).weaken ?_)
    intro r k _
    rcases r with e | _ | renewed
    · trivial
    · exact meets_ask fun _ _ => ⟨ha, fun _ _ _ _ _ => trivial⟩
    · exact fun _ _ => trivial
  | none =>
    refine meets_bind_yields ((Pool.meets_acquireMember hc).weaken ?_)
    intro r k _
    rcases r with e | _ | acquired
    · trivial
    · exact fun _ _ => trivial
    · exact meets_ask fun _ _ => ⟨ha, fun _ _ _ _ _ => trivial⟩

/-- A cycle does no more than its role. -/
theorem meets_cycle {role : Role} (he : W.enters role)
    (H : ∀ h, (c.work role).run.Meets (W.terms c.pool i n) (Yields fun _ _ => True) h) :
    (c.cycle role).Meets (W.terms c.pool i n) (fun _ _ => True) h := by
  unfold cycle
  split
  · refine Operation.meets_ask fun h₁ l₁ => ⟨he, ?_⟩
    intro entered k _
    cases entered with
    | false => exact fun _ _ => trivial
    | true =>
      exact Operation.meets_bind (x := (c.work role).run) ((H k).weaken fun _ _ _ _ _ =>
        ⟨he, fun _ _ _ _ _ => trivial⟩)
  · exact fun _ _ => trivial

theorem meets_releaseLeader (hw : W.releases c.pod c.leaderLease) :
    c.releaseLeader.Meets (W.terms c.pool i n) (fun _ _ => True) h := by
  unfold releaseLeader
  split
  · exact Operation.meets_bind ((Pool.meets_release hw).weaken fun _ _ _ _ _ => trivial)
  · exact fun _ _ => trivial

theorem meets_releaseMember (hw : ∀ name, W.releases c.pod name) (ha : W.announces) :
    c.releaseMember.Meets (W.terms c.pool i n) (fun _ _ => True) h := by
  refine Operation.meets_ask fun h₁ l₁ => ⟨trivial, ?_⟩
  intro held? k _
  cases held? with
  | none => exact fun _ _ => trivial
  | some held =>
    refine Operation.meets_bind ((Pool.meets_release (hw held)).weaken ?_)
    intro r k _
    split
    · exact fun _ _ => ⟨ha, fun _ _ _ _ _ => trivial⟩
    · exact fun _ _ => trivial

end Participant

namespace Job

/-- What a job may do to which leases when a participant does it. -/
def warrant (c : Participant) : Job → Warrant
  | cycle .leader =>
    { manages := fun role name => match role with
        | .leader => name = c.leaderLease
        | .member => ∃ ordinal, name = memberLeaseName c.pool.name ordinal
      claims := fun holder name => holder = c.pod ∧ name = c.leaderLease
      enters := fun role => role = .leader }
  | cycle .member =>
    { claims := fun holder _ => holder = c.pod
      enters := fun role => role = .member
      announces := True }
  | release .leader => { releases := fun holder name => holder = c.pod ∧ name = c.leaderLease }
  | release .member =>
    { releases := fun holder _ => holder = c.pod
      announces := True }
  | ensureMember name => { manages := fun role other => role = .member ∧ other = name }
  | acquireLeader holder name =>
    { manages := fun role other => role = .leader ∧ other = name
      claims := fun other lease => other = holder ∧ lease = name }
  | acquireMember holder _ => { claims := fun other _ => other = holder }
  | acquireMemberHinted holder _ _ => { claims := fun other _ => other = holder }
  | renew l holder =>
    { claims := fun other name => other = holder ∧ name = l.name
      isBlind := True }
  | renewByName name holder => { claims := fun other lease => other = holder ∧ lease = name }
  | releaseLease holder name => { releases := fun other lease => other = holder ∧ lease = name }

/-- A job that is about a lease which somebody has read is about a lease that was stored. -/
def IsFor (h : History) : Job → Prop
  | renew l _ => l ∈ h.leases
  | _ => True

instance (h : History) (job : Job) : Decidable (job.IsFor h) := by
  cases job <;> unfold IsFor <;> infer_instance

/-- **Every job stays within its warrant.** -/
theorem meets {c : Participant} {job : Job} (hj : job.IsFor h) :
    (job.operation c).Meets ((job.warrant c).terms c.pool i n) (fun _ _ => True) h := by
  have silent : ∀ {x : Operation Unit} {T : Terms}, x.Meets T (fun _ _ => True) h →
      (World.silent x).Meets T (fun _ _ => True) h :=
    fun H => Operation.meets_bind (H.weaken fun _ _ _ _ _ => trivial)
  cases job with
  | cycle role =>
    cases role with
    | leader =>
      exact silent (Participant.meets_cycle rfl fun k =>
        Participant.meets_reconcile rfl ⟨rfl, rfl⟩ fun ordinal => ⟨ordinal, rfl⟩)
    | member =>
      exact silent (Participant.meets_cycle rfl fun k =>
        Participant.meets_acquire (fun _ => rfl) trivial)
  | release role =>
    cases role with
    | leader => exact silent (Participant.meets_releaseLeader ⟨rfl, rfl⟩)
    | member => exact silent (Participant.meets_releaseMember (fun _ => rfl) trivial)
  | ensureMember name =>
    refine meets_answering ((Pool.meets_ensure (W := (ensureMember name).warrant c)
      ⟨rfl, rfl⟩).weaken ?_)
    intro r k _
    cases r with
    | error e => trivial
    | ok l => trivial
  | acquireLeader holder name =>
    exact meets_answering (Pool.meets_acquireLeader ⟨rfl, rfl⟩ ⟨rfl, rfl⟩)
  | acquireMember holder pool => exact meets_answering (Pool.meets_acquireMember fun _ => rfl)
  | acquireMemberHinted holder pool known =>
    exact meets_answering (Pool.meets_acquireMemberHinted fun _ => rfl)
  | renew l holder =>
    exact meets_answering (Pool.meets_renew ⟨rfl, rfl⟩ hj (.inl trivial))
  | renewByName name holder => exact meets_answering (Pool.meets_renewByName ⟨rfl, rfl⟩)
  | releaseLease holder name => exact meets_answering (Pool.meets_release ⟨rfl, rfl⟩)

end Job

end

/-! ## Fleets -/

namespace Fleet

/-- A fleet at its beginning: replicas over a store, and nothing has been done yet. -/
structure IsNew (f : Fleet) : Prop where
  errands : f.errands = []
  log : f.log = []
  origin : f.origin = f.scene.store.leases.values
  store : f.scene.store.IsSound
  still : f.scene.ticking = false

/-- What replicas begin is about leases that were read from the store. -/
def Informed (f : Fleet) : Move → Prop
  | .begin _ job => job.IsFor f.toHistory
  | _ => True

instance (f : Fleet) (m : Move) : Decidable (f.Informed m) := by
  cases m <;> unfold Informed <;> infer_instance

/-- The terms of all errands: each keeps to the warrant of its job. -/
def discipline (who : Nat → Participant) : TermsOf :=
  fun n i job => (job.warrant (who i)).terms (who i).pool i n

/-- A fleet in which everybody keeps to the warrant of what is being done. -/
structure IsDisciplined (who : Nat → Participant) (f : Fleet) : Prop where
  sound : f.IsSound
  still : f.scene.ticking = false
  participant : ∀ i, f.scene.participantOf i = who i
  /-- Errands are those of replicas that exist. -/
  known : ∀ (n : Nat) (e : Errand), f.errands[n]? = some e →
    (f.scene.participant? e.replica).isSome = true
  keeps : f.Keeps (discipline who)

/-- Participants over an empty store are a fleet at its beginning. -/
theorem isNew_ofParticipants (cs : List Participant) (t : Instant) :
    (ofParticipants cs t).IsNew where
  errands := rfl
  log := rfl
  origin := rfl
  store := MemoryStore.isSound_of_empty rfl
  still := rfl

variable {f g : Fleet} {m : Move} {who : Nat → Participant}

/-- The history of a fleet at its beginning is sound. -/
theorem IsNew.isSound (h : f.IsNew) : f.IsSound := by
  have mem : ∀ l, l ∈ f.leases ↔ ∃ k, f.scene.store.leases.get? k = some l := by
    intro l
    simp only [History.leases, h.log, h.origin, List.filterMap_nil, List.nil_append, Table.values,
      List.mem_map, Prod.exists, Table.get?_eq_some_iff, exists_eq_right]
  refine ⟨fun k l hl => (h.store k l hl).1, fun k l hl => (mem l).2 ⟨k, hl⟩, ?_,
    ?_, ?_⟩
  · intro l hl
    obtain ⟨k, hk⟩ := (mem l).1 hl
    exact (h.store k l hk).2
  · intro l hl m hm key _
    obtain ⟨j, hj⟩ := (mem l).1 hl
    obtain ⟨k, hk⟩ := (mem m).1 hm
    obtain rfl : j = k := (h.store j l hj).1.symm.trans (key.trans (h.store k m hk).1)
    exact Option.some.inj (hj.symm.trans hk)
  · intro l hl
    obtain ⟨k, hk⟩ := (mem l).1 hl
    rw [(h.store k l hk).1, hk]
    rfl

theorem IsNew.isDisciplined (h : f.IsNew) : f.IsDisciplined f.scene.participantOf := by
  refine ⟨h.isSound, h.still, fun _ => rfl, fun n e he => ?_, fun n e he => ?_⟩ <;>
    (rw [h.errands] at he; contradiction)

/-- Who takes part as a replica is settled from the beginning. -/
theorem IsDisciplined.participant_of_replica (D : f.IsDisciplined who) {i : Nat} {r : Replica}
    (hr : f.scene.replicas[i]? = some r) : r.participant = who i := by
  rw [← D.participant i, Scene.participantOf, Scene.participant?, hr]
  rfl

/-- **A move keeps a fleet disciplined.** -/
theorem IsDisciplined.turn (D : f.IsDisciplined who) (h : f.turn? m = some g)
    (hm : f.Informed m) : g.IsDisciplined who := by
  have grown := grows_of_turn? h
  refine ⟨isSound_of_turn? h D.sound, grown.ticking.trans D.still,
    fun i => (grown.participantOf i).trans (D.participant i), fun n e he => ?_, ?_⟩
  · rw [grown.participant]
    rcases errand_of_turn? h he with ⟨d, hd, same, -⟩ | ⟨i, job, r, -, hr, rfl⟩
    · rw [same]
      exact D.known n d hd
    · rw [Scene.participant?, hr]
      rfl
  refine D.keeps.turn h (fun _ _ _ => ⟨rfl, rfl⟩) (fun _ _ _ => ⟨D.sound, D.still⟩) D.still
    (fun _ _ _ _ => grown) ?_
  intro i job r he hr
  rw [he] at hm
  rw [D.participant_of_replica hr]
  exact Job.meets hm

/-- All that replicas do, in whatever order, they do within their warrants. -/
theorem isDisciplined_of_reaches {rule : Fleet → Move → Prop}
    (informed : ∀ f m, rule f m → f.Informed m) (new : f.IsNew) (run : Reaches rule f g) :
    g.IsDisciplined f.scene.participantOf := by
  induction run with
  | refl => exact new.isDisciplined
  | tail _ turn ih =>
    obtain ⟨m, hm, turn⟩ := turn
    exact ih.turn turn (informed _ _ hm)

/-- Participants are the same throughout. -/
theorem participants_eq_of_grows (h : f.toHistory.Grows g.toHistory) :
    g.participants = f.participants := by
  refine List.ext_getElem? ?_
  intro i
  simp only [participants, List.getElem?_map]
  exact h.participant i

/-- Whoever is on an errand takes part. -/
theorem IsDisciplined.mem_participants (D : f.IsDisciplined who) {n : Nat} {e : Errand}
    (he : f.errands[n]? = some e) : who e.replica ∈ f.participants := by
  obtain ⟨c, hc⟩ := Option.isSome_iff_exists.1 (D.known n e he)
  obtain ⟨r, hr, rfl⟩ := Option.map_eq_some_iff.1 hc
  rw [← D.participant, Scene.participantOf, hc]
  exact List.mem_map_of_mem (List.mem_of_getElem? hr)

/-- What an errand is about to ask is within its warrant. -/
theorem IsDisciplined.permits (D : f.IsDisciplined who) {n : Nat} {e : Errand} {q : Query}
    {next : q.Answer → Operation Answer} (he : f.errands[n]? = some e) (hr : e.rest = .ask q next) :
    (e.job.warrant (who e.replica)).Permits q :=
  D.keeps.mayAsk (show (discipline who n e.replica e.job).holds _ from ⟨D.sound, D.still⟩) he hr

/-- What an errand is about to call is within its warrant. -/
theorem IsDisciplined.allows (D : f.IsDisciplined who) {n : Nat} {e : Errand} {c : StoreCall}
    {next : c.Reply → Operation Answer} (he : f.errands[n]? = some e)
    (hr : e.rest = .call c next) :
    (e.job.warrant (who e.replica)).Allows (who e.replica).pool f.toHistory c :=
  D.keeps.mayCall (show (discipline who n e.replica e.job).holds _ from ⟨D.sound, D.still⟩) he hr

end Fleet

end LeasePool
