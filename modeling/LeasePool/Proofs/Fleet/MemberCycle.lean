import LeasePool.Proofs.Fleet.Membership

/-!
# Cycles of member controllers

What a member controller does to its pod's claims on member leases, told on terms that all other
errands fulfil: they take member leases from the pod, at most, and give it none. A cycle looks
for other leases only when the pod holds none: a renewal that loses a race has lost the lease to
somebody else, since nobody but this cycle claims leases for the pod, and so the pod never holds
two leases.
-/

namespace LeasePool

namespace Member

/-- What others may do to the member leases of a pod: take them from it, but not claim any for it;
and what they may do to the memory of its replica: empty it. During a cycle nobody but the cycle
writes member leases for the pod. -/
structure Rely (p : Pool) (pod : String) (i : Nat) (job : Job) (h h' : History) : Prop where
  grows : h.Grows h'
  held : ∀ name, h'.held? i = some name → h.held? i = some name
  holds : ∀ l, h'.Holds p pod l → h.Holds p pod l
  claims : job = .cycle .member → ∀ k c, p.Names .member k.name → h.claimOf? pod k = some c →
    h'.claimOf? pod k = some c

/-- What holds at all times. -/
structure Ground (p : Pool) (pod : String) (i : Nat) (h : History) : Prop where
  sound : h.IsSound
  still : h.scene.ticking = false
  conforms : ∀ l ∈ h.leases, ∃ role, p.Conforms role l
  own : h.scene.podOf i = pod
  tidy : h.IsTidy p pod i

/-- What is asked of a question. An event is announced when it is true: a cycle has acquired the
only lease that the pod holds, and when a lease is lost or given up the pod holds none. -/
def MayAsk (p : Pool) (pod : String) (i : Nat) (job : Job) (h : History) : Query → Prop
  | .announce .acquired name => job = .cycle .member ∧ h.held? i = none ∧
    p.Names .member name ∧ (∀ l, h.Holds p pod l → l.name = name) ∧
    (h.claimOf? pod ⟨p.ns, name⟩).isSome = true
  | .announce .lost _ | .announce .released _ => ∀ name, h.held? i = some name →
    ∀ l, ¬ h.Holds p pod l
  | .enter _ | .leave _ => False
  | .now | .knownDeployment | .setKnownDeployment _ | .heldLease => True

variable {p : Pool} {pod : String} {i n : Nat} {job : Job} {h h' : History}

theorem Rely.refl (h : History) : Rely p pod i job h h :=
  ⟨.refl h, fun _ => id, fun _ => id, fun _ _ _ _ => id⟩

theorem Rely.trans {a b c : History} (H : Rely p pod i job a b) (K : Rely p pod i job b c) :
    Rely p pod i job a c where
  grows := H.grows.trans K.grows
  held name hn := H.held name (K.held name hn)
  holds l hl := H.holds l (K.holds l hl)
  claims hj k d hk hd := K.claims hj k d hk (H.claims hj k d hk hd)

/-- The terms on which cycles and releases of a member controller run. Their calls keep the
replica's memory tidy, and they get stuck only on a lease of the pod whose claim ends beyond the
calendar. -/
def terms (p : Pool) (pod : String) (i n : Nat) (job : Job) : Terms where
  replica := i
  errand := n
  holds := Ground p pod i
  rely := Rely p pod i job
  mayAsk := MayAsk p pod i job
  mayCall h c := (h.call i n c).IsTidy p pod i
  mayCrash h := ∀ name, h.held? i = some name → ∀ l, h.Holds p pod l → l.expiry = .outOfRange
  refl := .refl
  trans := .trans
  grows := Rely.grows

/-- A call that stores nothing is within what others may do. -/
theorem rely_call (job : Job) {c : StoreCall} (hs : c.stored? (h.reply c) = none) :
    Rely p pod i job h (h.call i n c) where
  grows := History.grows_call h i n c
  held _ hn := hn
  holds _ hl := (History.holds_call_of_not_stored hs).1 hl
  claims _ k d _ hd := by rw [History.claimOf?_call_of_not_stored hs]; exact hd

/-- And so it keeps the memory tidy. -/
theorem Ground.tidy_call {c : StoreCall} (G : Ground p pod i h)
    (hs : c.stored? (h.reply c) = none) : (h.call i n c).IsTidy p pod i :=
  G.tidy.mono (rely_call (.cycle .member) hs).holds fun _ => id

/-- A stored lease is one of the pool. -/
theorem Ground.ns_of_holds {l : Lease} (G : Ground p pod i h) (H : h.Holds p pod l) :
    l.key = ⟨p.ns, l.name⟩ := by
  obtain ⟨role, conforms⟩ := G.conforms l (G.sound.stored _ _ H.stored)
  rw [← conforms.ns]
  rfl

/-- What the pod holds, if it holds nothing but the lease of a name, is what is read by the
name. -/
theorem Ground.eq_of_getLease {name : String} {found? : Option Lease} (G : Ground p pod i h)
    (only : ∀ x, h.Holds p pod x → x.name = name)
    (hr : h.reply (.getLease p.ns name) = .ok found?) {x : Lease} (hx : h.Holds p pod x) :
    found? = some x := by
  have key : x.key = ⟨p.ns, name⟩ := by rw [G.ns_of_holds hx, only x hx]
  rw [← History.get?_of_getLease hr, ← key]
  exact hx.stored

/-- An update that is stored leaves the lease in the hands that it names. -/
theorem isHeldBy_of_updateLease {l m : Lease} {holder : String}
    (hs : StoreCall.stored? (.updateLease l) (h.reply _) = some m) :
    m.isHeldBy holder = l.isHeldBy holder := by
  rcases MemoryStore.stored?_answer hs with ⟨_, eq, _⟩ | ⟨_, _, eq, -, -, hm, -⟩
  · contradiction
  · injection eq with eq
    rw [hm, ← eq]
    rfl

/-- When the only lease of a pod is given up, the pod holds none. -/
theorem not_holds_of_release {l m : Lease} (only : ∀ x, h.Holds p pod x → x = l)
    (hs : StoreCall.stored? (.updateLease (l.edit .release)) (h.reply _) = some m) (x : Lease) :
    ¬ (h.call i n (.updateLease (l.edit .release))).Holds p pod x := by
  intro hx
  rcases History.holds_call_of_stored hs hx with rfl | ⟨other, old⟩
  · have held := hx.held
    rw [isHeldBy_of_updateLease hs, Lease.isHeldBy_release] at held
    contradiction
  · rw [only x old, History.key_of_stored rfl hs] at other
    exact other Lease.key_edit.symm

/-! ## Outcomes -/

/-- The outcome of a claim on a member lease: the pod holds nothing but this lease, or the pod does
not hold the lease as it was read, or the store did not answer. -/
def Claimed (p : Pool) (pod : String) (i n : Nat) (job : Job) (h : History) (l : Lease)
    (r : Except PoolError (Option Lease)) (k : History) : Prop :=
  (∀ name, k.held? i = some name → h.held? i = some name) ∧
    match r with
    | .ok (some m) => m.key = l.key ∧ (∀ x, k.Holds p pod x → x.key = l.key) ∧
      k.HasClaimed n pod l.key ∧
      (job = .cycle .member → (k.claimOf? pod l.key).isSome = true)
    | .ok none => ∀ x, k.Holds p pod x → h.Holds p pod x ∧ x ≠ l
    | .error _ => k.HasFailed n

/-- The outcome of the renewal of a lease that a replica knows about: the renewal was stored, or the
pod holds no lease any more, or the store did not answer. -/
def Renewed (p : Pool) (pod : String) (i n : Nat) (name : String) :
    Except PoolError (Option Lease) → History → Prop
  | .ok (some _), k => k.HasClaimed n pod ⟨p.ns, name⟩ ∧
    ∀ other, k.held? i = some other → other = name
  | .ok none, k => ∀ x, ¬ k.Holds p pod x
  | .error _, k => k.HasFailed n

/-- Whoever knew of no lease learns of none from others. -/
theorem held?_eq_none (unaware : h.held? i = none)
    (held : ∀ name, h'.held? i = some name → h.held? i = some name) : h'.held? i = none := by
  cases hh : h'.held? i with
  | none => rfl
  | some name => rw [held name hh] at unaware; contradiction

/-- A process that knows of no lease knows of none but this one. -/
theorem name_eq_of_unaware {l : Lease} (unaware : h.held? i = none) :
    ∀ name, h.held? i = some name → l.name = name := by
  intro name here
  rw [unaware] at here
  contradiction

/-- A lease that is a candidate for a claim by a member of the pool. -/
def IsCandidate (p : Pool) (l : Lease) : Prop :=
  p.Names .member l.name ∧ l.key = ⟨p.ns, l.name⟩

/-- A lease has been acquired by an errand of a replica that knew of none: it is all that the pod
holds. -/
structure Acquired (p : Pool) (pod : String) (i n : Nat) (l : Lease) (h : History) : Prop where
  named : p.Names .member l.name
  only : ∀ x, h.Holds p pod x → x.name = l.name
  claimed : h.HasClaimed n pod ⟨p.ns, l.name⟩
  claim : (h.claimOf? pod ⟨p.ns, l.name⟩).isSome = true
  held : h.held? i = none

theorem acquired_of_claimed {l m : Lease} (hl : IsCandidate p l) (unaware : h.held? i = none)
    (H : Claimed p pod i n (.cycle .member) h l (.ok (some m)) h') : Acquired p pod i n m h' := by
  obtain ⟨held, key, only, claimed, claim⟩ := H
  have name : m.name = l.name := congrArg LeaseKey.name key
  rw [hl.2] at claimed claim
  refine ⟨name ▸ hl.1, fun x hx => ?_, name ▸ claimed, name ▸ claim rfl, held?_eq_none unaware held⟩
  rw [name]
  exact congrArg LeaseKey.name (only x hx)

/-- What has been acquired stays so until the replica goes on. -/
theorem Acquired.later {l : Lease} (A : Acquired p pod i n l h)
    (R : Rely p pod i (.cycle .member) h h') : Acquired p pod i n l h' where
  named := A.named
  only x hx := A.only x (R.holds x hx)
  claimed := R.grows.hasClaimed A.claimed
  claim := by
    obtain ⟨c, hc⟩ := Option.isSome_iff_exists.1 A.claim
    rw [R.claims rfl _ c A.named hc]
    rfl
  held := held?_eq_none A.held R.held

/-- The outcome of the first pass over the leases: one has been acquired, or the pod holds none. -/
def FirstPass (p : Pool) (pod : String) (i n : Nat) :
    Except PoolError (Option Lease) → History → Prop
  | .ok (some m), k => Acquired p pod i n m k
  | .ok none, k => (∀ x, ¬ k.Holds p pod x) ∧ k.held? i = none
  | .error _, k => k.held? i = none

/-- The outcome of the second pass, and of both. -/
def SecondPass (p : Pool) (pod : String) (i n : Nat) :
    Except PoolError (Option Lease) → History → Prop
  | .ok (some m), k => Acquired p pod i n m k
  | .ok none, k | .error _, k => k.held? i = none

section

variable (named : Text.isBlankText pod = false)
include named

open Attempt Pool

/-! ## Claims -/

/-- A claim that was stored lies under the key of the lease that was claimed, and is the pod's. -/
theorem stored_claim {l m : Lease} {t : Stamp}
    (hs : StoreCall.stored? (.updateLease (l.edit (.claim pod t))) (h.reply _) = some m) :
    m.key = l.key ∧ m.isHeldBy pod = true := by
  refine ⟨(History.key_of_stored rfl hs).trans Lease.key_edit, ?_⟩
  rw [isHeldBy_of_updateLease hs]
  exact Lease.isHeldBy_claim.2 ⟨rfl, named⟩

/-- **A claim on a member lease** of a pod that holds no other one, and this one only as it was
read. -/
theorem meets_renew {l : Lease} (hn : p.Names .member l.name)
    (only : ∀ m, h.Holds p pod m → m.key = l.key)
    (current : ∀ m, h.Holds p pod m → l.isHeldBy pod = true)
    (own : ∀ name, h.held? i = some name → l.name = name) :
    (renew l pod).run.Meets (terms p pod i n job) (Claimed p pod i n job h l) h := by
  refine meets_ask fun h₁ l₁ => ⟨trivial, ?_⟩
  intro now k a
  obtain ⟨rfl, rfl⟩ := History.eq_of_ask_now l₁.2.still a
  refine meets_orCrash ?counted ?uncounted
  case uncounted =>
    -- A pod that holds the lease renews it without any counting, so this one holds nothing.
    intro uncounted k' later _ _ x hx
    have admits := Lease.admits_of_isHeldBy (current x (l₁.1.holds x (later.1.holds x hx)))
    rw [Lease.claimed?, if_pos admits] at uncounted
    contradiction
  intro claimed counted
  obtain ⟨-, rfl⟩ := Lease.claimed?_eq_some_iff.1 counted
  refine meets_reply ?_
  intro h₂ l₂
  have R := l₁.1.trans l₂.1
  have G := l₂.2
  cases hr : h₂.reply (.updateLease (l.edit (.claim pod (.utc k.now)))) with
  | ok m =>
    -- The claim was stored, and the pod holds what it has just claimed and nothing else.
    have hs : StoreCall.stored? _ (h₂.reply _) = some m := congrArg _ hr
    obtain ⟨key, mine⟩ := stored_claim named hs
    have holds : ∀ x, (h₂.call i n (.updateLease (l.edit (.claim pod (.utc k.now))))).Holds p pod
        x → x = m := by
      intro x hx
      rcases History.holds_call_of_stored hs hx with rfl | ⟨other, old⟩
      · rfl
      · exact absurd ((only x (R.holds x old)).trans key.symm) other
    refine ⟨⟨fun x y hx hy => (holds x hx).trans (holds y hy).symm, G.tidy.named, ?_⟩, ?_⟩
    · intro name hname x hx
      rw [holds x hx]
      exact (congrArg LeaseKey.name key).trans (own name (R.held name hname))
    · intro h₃ l₃
      refine ⟨fun name hname => R.held name (l₃.1.held name hname), key, ?_, ?_, ?_⟩
      · intro x hx
        rw [holds x (l₃.1.holds x hx)]
        exact key
      · exact l₃.1.grows.hasClaimed ⟨_, List.mem_cons_self, rfl, m, hs, key, mine⟩
      · intro hj
        have claim : (h₂.call i n (.updateLease (l.edit (.claim pod (.utc k.now))))).claimOf? pod
            l.key = some m := by
          rw [History.claimOf?_call hs, if_pos ⟨G.own, key⟩, if_pos mine]
        rw [l₃.1.claims hj l.key m hn claim]
        rfl
  | error e =>
    have hs : StoreCall.stored? _ (h₂.reply _) = none := congrArg _ hr
    refine ⟨G.tidy_call hs, ?_⟩
    simp only
    split
    · rename_i race
      -- The race was lost, so the lease is not stored as it was read.
      refine fun h₃ l₃ => ⟨fun name hname => R.held name (l₃.1.held name hname), ?_⟩
      intro x hx
      have old := (rely_call job hs).holds x (l₃.1.holds x hx)
      refine ⟨R.holds x old, ?_⟩
      rintro rfl
      exact History.get?_ne_of_race hr race old.stored
    · rename_i other
      intro h₃ l₃
      exact ⟨fun name hname => R.held name (l₃.1.held name hname),
        l₃.1.grows.hasFailed (History.hasFailed_call hr (by simpa using other))⟩

theorem meets_renewByName {q : Pool} (agrees : q.Agrees p) {name : String}
    (hn : p.Names .member name) (only : ∀ l, h.Holds p pod l → l.name = name)
    (own : ∀ other, h.held? i = some other → other = name) :
    (q.renewByName name pod).run.Meets (terms p pod i n job) (Renewed p pod i n name) h := by
  refine meets_call fun h₁ l₁ => ⟨l₁.2.tidy_call rfl, ?_, ?_⟩
  · intro found? hr
    rw [agrees.1] at hr ⊢
    have read : Rely p pod i job h₁ (h₁.call i n (.getLease p.ns name)) := rely_call _ rfl
    have found : ∀ x, h₁.Holds p pod x → found? = some x := by
      intro x hx
      exact l₁.2.eq_of_getLease (fun y hy => only y (l₁.1.holds y hy)) hr hx
    cases found? with
    | none =>
      intro k later x hx
      have absent := found x (read.holds x (later.1.holds x hx))
      contradiction
    | some l =>
      obtain ⟨-, at_, -⟩ := l₁.2.sound.of_getLease hr
      have same : ∀ x, h₁.Holds p pod x → x = l := fun x hx => (Option.some.inj (found x hx)).symm
      refine meets_ask fun h₂ l₂ => ⟨trivial, ?_⟩
      intro now k a
      obtain ⟨rfl, rfl⟩ := History.eq_of_ask_now l₂.2.still a
      have R := read.trans l₂.1
      refine meets_orCrash ?_ ?_
      · intro free ha
        cases free with
        | false =>
          intro h₃ l₃ x hx
          have old := R.holds x (l₃.1.holds x hx)
          have held := old.held
          rw [same x old, Lease.not_isHeldBy_of_not_available ha] at held
          contradiction
        | true =>
          have same_name : l.name = name := congrArg LeaseKey.name at_
          have onlyThis : ∀ x, k.Holds p pod x → x.key = l.key := by
            intro x hx
            rw [same x (R.holds x hx)]
          have ownThis : ∀ other, k.held? i = some other → l.name = other := by
            intro other ho
            rw [same_name]
            exact (own other (l₁.1.held other (R.held other ho))).symm
          have current : ∀ x, k.Holds p pod x → l.isHeldBy pod = true :=
            fun x hx => same x (R.holds x hx) ▸ hx.held
          refine (meets_renew named (same_name ▸ hn) onlyThis current ownThis).weaken ?_
          intro r k' hr
          rcases r with e | _ | m
          · exact hr.2
          · -- What the pod holds now it held before, and that was the lease as it was read.
            intro x hx
            exact (hr.2 x hx).2 (same x (R.holds x (hr.2 x hx).1))
          · obtain ⟨held, -, -, claimed, -⟩ := hr
            rw [at_] at claimed
            exact ⟨claimed, fun other ho => (ownThis other (held other ho)).symm.trans same_name⟩
      · intro ha h₃ l₃ other _ x hx
        rw [same x (R.holds x (l₃.1.holds x hx))]
        exact Lease.expiry_of_availableTo?_eq_none ha
  · intro e hr k later
    exact later.1.grows.hasFailed
      (History.hasFailed_call hr (History.not_race_of_read rfl hr))

/-! ## Acquisitions -/

/-- The renewal of the leases that the pod holds. There is one at most, so when its renewal has
lost a race the pod holds none, whatever else the list says. -/
theorem meets_renewFirst {ls : List Lease} (unaware : h.held? i = none)
    (candidates : ∀ l ∈ ls, IsCandidate p l) (only : ∀ l ∈ ls, ∀ x, h.Holds p pod x → x = l)
    (all : ∀ x, h.Holds p pod x → x ∈ ls) :
    (renewFirst pod ls).run.Meets (terms p pod i n (.cycle .member)) (FirstPass p pod i n) h := by
  induction ls generalizing h with
  | nil =>
    refine fun k later => ⟨fun x hx => ?_, held?_eq_none unaware later.1.held⟩
    exact absurd (all x (later.1.holds x hx)) List.not_mem_nil
  | cons l ls ih =>
    have hl := candidates l List.mem_cons_self
    have mine := only l List.mem_cons_self
    refine Attempt.meets_bind ((meets_renew named hl.1 (fun x hx => by rw [mine x hx])
      (fun x hx => mine x hx ▸ hx.held) (name_eq_of_unaware unaware)).weaken ?_)
    intro r k hr
    have unaware' := held?_eq_none unaware hr.1
    rcases r with e | _ | m
    · intro k' later
      exact held?_eq_none unaware' later.1.held
    · have free : ∀ x, ¬ k.Holds p pod x := fun x hx => (hr.2 x hx).2 (mine x (hr.2 x hx).1)
      exact ih unaware' (fun a ha => candidates a (List.mem_cons_of_mem _ ha))
        (fun a _ x hx => absurd hx (free x)) (fun x hx => absurd hx (free x))
    · intro k' later
      exact (acquired_of_claimed hl unaware hr).later later.1

/-- The claims on the leases that are available, of a pod that holds none. -/
theorem meets_claimFirst {ls : List Lease} {now : Instant} (unaware : h.held? i = none)
    (candidates : ∀ l ∈ ls, IsCandidate p l) (free : ∀ x, ¬ h.Holds p pod x) :
    (claimFirst pod now ls).run.Meets (terms p pod i n (.cycle .member))
      (SecondPass p pod i n) h := by
  induction ls generalizing h with
  | nil => exact fun k later => held?_eq_none unaware later.1.held
  | cons l ls ih =>
    have hl := candidates l List.mem_cons_self
    have rest := fun a ha => candidates a (List.mem_cons_of_mem l ha)
    refine meets_orCrash ?_ ?_
    · intro available _
      cases available with
      | false => exact ih unaware rest free
      | true =>
        refine Attempt.meets_bind ((meets_renew named hl.1 (fun x hx => absurd hx (free x))
          (fun x hx => absurd hx (free x)) (name_eq_of_unaware unaware)).weaken ?_)
        intro r k hr
        have unaware' := held?_eq_none unaware hr.1
        rcases r with e | _ | m
        · intro k' later
          exact held?_eq_none unaware' later.1.held
        · exact ih unaware' rest fun x hx => free x (hr.2 x hx).1
        · intro k' later
          exact (acquired_of_claimed hl unaware hr).later later.1
    · intro _ k later name hname
      rw [held?_eq_none unaware later.1.held] at hname
      contradiction

/-- **An acquisition by a replica that knows of no lease**: it renews the lease that its pod
holds, if there is one, and claims another one only when the pod holds none. -/
theorem meets_acquireMember {q : Pool} (agrees : q.Agrees p) (unaware : h.held? i = none) :
    (q.acquireMember pod q.name).run.Meets (terms p pod i n (.cycle .member))
      (SecondPass p pod i n) h := by
  rw [acquireMember, agrees.1, agrees.2.1]
  refine meets_call fun h₁ l₁ => ⟨l₁.2.tidy_call rfl, fun ls hr => ?_,
    fun e _ k later => held?_eq_none (held?_eq_none unaware l₁.1.held) later.1.held⟩
  have read : Rely p pod i (.cycle .member) h₁
      (h₁.call i n (.listLeases p.ns (memberSelector p.name))) := rely_call _ rfl
  have listed := l₁.2.sound.of_listLeases hr
  have unaware₁ := held?_eq_none unaware l₁.1.held
  -- The list has all member leases that the pod holds, and nothing but member leases.
  have all : ∀ x, h₁.Holds p pod x → x ∈ byName ls := by
    intro x hx
    obtain ⟨role, conforms⟩ := l₁.2.conforms x (l₁.2.sound.stored _ _ hx.stored)
    obtain rfl := conforms.name.unique hx.named
    refine mem_byName.2 ((listed x).2 ⟨hx.stored, conforms.ns, ?_⟩)
    rw [conforms.labels]
    exact selects_memberSelector_iff.2 rfl
  have candidates : ∀ l ∈ byName ls, IsCandidate p l := by
    intro l hl
    obtain ⟨stored, ns, selected⟩ := (listed l).1 (mem_byName.1 hl)
    obtain ⟨role, conforms⟩ := l₁.2.conforms l (l₁.2.sound.stored _ _ stored)
    rw [conforms.labels, selects_memberSelector_iff] at selected
    subst selected
    exact ⟨conforms.name, by rw [← ns]; rfl⟩
  have stored : ∀ l ∈ byName ls, h₁.scene.store.leases.get? l.key = some l := fun l hl =>
    ((listed l).1 (mem_byName.1 hl)).1
  generalize byName ls = sorted at all candidates stored
  cases sorted with
  | nil => exact fun k later => held?_eq_none unaware₁ later.1.held
  | cons first rest =>
    have own : ∀ l ∈ (first :: rest).filter fun l => l.isHeldBy pod,
        IsCandidate p l ∧ h₁.Holds p pod l := by
      intro l hl
      obtain ⟨member, held⟩ := List.mem_filter.1 hl
      exact ⟨candidates l member, stored l member, held, (candidates l member).1⟩
    refine Attempt.meets_bind ((meets_renewFirst named (held?_eq_none unaware₁ read.held)
      (fun l hl => (own l hl).1)
      (fun l hl x hx => l₁.2.tidy.single x l (read.holds x hx) (own l hl).2)
      fun x hx => ?_).weaken fun r k hr => ?_)
    · have old := read.holds x hx
      exact List.mem_filter.2 ⟨all x old, old.held⟩
    · rcases r with e | _ | m
      · intro k' later
        exact held?_eq_none hr later.1.held
      · refine meets_ask fun h₂ l₂ => ⟨trivial, ?_⟩
        intro now k' a
        obtain ⟨rfl, rfl⟩ := History.eq_of_ask_now l₂.2.still a
        exact meets_claimFirst named (held?_eq_none hr.2 l₂.1.held) candidates
          fun x hx => hr.1 x (l₂.1.holds x hx)
      · intro k' later
        exact hr.later later.1

/-! ## Cycles and releases -/

/-- How a cycle ends: if the replica knows of a lease, the cycle has claimed it, unless the store
did not answer. -/
def Finished (p : Pool) (pod : String) (i n : Nat) (h : History) : Prop :=
  ∀ name, h.held? i = some name → h.HasFailed n ∨ h.HasClaimed n pod ⟨p.ns, name⟩

omit named in

omit named in
/-- The answer to what lease a process holds. -/
theorem eq_of_ask_heldLease {a : Option String} (k : h.ask i .heldLease = some (a, h')) :
    a = h.held? i ∧ h' = h := by
  cases k
  exact ⟨rfl, rfl⟩

/-- **A cycle of a member controller** keeps to its terms. -/
theorem meets_acquire {c : Participant} (agrees : c.pool.Agrees p) (hc : c.pod = pod) :
    c.acquire.run.Meets (terms p pod i n (.cycle .member)) (fun _ k => Finished p pod i n k) h := by
  subst hc
  refine meets_ask fun h₁ l₁ => ⟨trivial, ?_⟩
  intro held? k a
  obtain ⟨(hk : held? = h₁.held? i), rfl⟩ := eq_of_ask_heldLease a
  have T := l₁.2.tidy
  replace hk := hk.symm
  cases held? with
  | some name =>
    have own : ∀ other, k.held? i = some other → other = name := by
      intro other ho
      rw [hk] at ho
      exact (Option.some.inj ho).symm
    refine Attempt.meets_bind ((meets_renewByName named agrees (T.named name hk)
      (T.known name hk) own).weaken ?_)
    intro r k' hr
    rcases r with e | _ | m
    · intro k'' later other _
      exact .inl (later.1.grows.hasFailed hr)
    · refine meets_ask fun h₂ l₂ => ⟨fun _ _ x hx => hr x (l₂.1.holds x hx), ?_⟩
      intro _ k'' a h₃ l₃ other ho
      have lost := (History.eq_of_held?_announce a (l₃.1.held other ho)).1
      contradiction
    · refine fun k'' later other ho => .inr ?_
      rw [hr.2 other (later.1.held other ho)]
      exact later.1.grows.hasClaimed hr.1
  | none =>
    refine Attempt.meets_bind ((meets_acquireMember named agrees hk).weaken ?_)
    intro r k' hr
    rcases r with e | _ | m
    · intro k'' later name hname
      rw [held?_eq_none hr later.1.held] at hname
      contradiction
    · intro k'' later name hname
      rw [held?_eq_none hr later.1.held] at hname
      contradiction
    · refine meets_ask ?_
      intro h₂ l₂
      have A := hr.later l₂.1
      refine ⟨⟨rfl, A.held, A.named, A.only, A.claim⟩, ?_⟩
      intro _ k'' a h₃ l₃ name hname
      refine .inr ?_
      have acquired := (History.eq_of_held?_announce a (l₃.1.held name hname)).2
      subst acquired
      exact l₃.1.grows.hasClaimed ((History.grows_ask a).hasClaimed A.claimed)

omit named in
/-- The outcome of a release that has been successful: the pod holds no member lease. -/
def Released (p : Pool) (pod : String) : Except PoolError Bool → History → Prop
  | .ok true, k => ∀ x, ¬ k.Holds p pod x
  | .ok false, _ | .error _, _ => True

omit named in
theorem meets_release {q : Pool} (agrees : q.Agrees p) {name : String}
    (only : ∀ l, h.Holds p pod l → l.name = name) :
    (q.release pod name).run.Meets (terms p pod i n job) (Released p pod) h := by
  refine meets_call fun h₁ l₁ => ⟨l₁.2.tidy_call rfl, ?_, fun e _ _ _ => trivial⟩
  intro found? hr
  rw [agrees.1] at hr ⊢
  have read : Rely p pod i job h₁ (h₁.call i n (.getLease p.ns name)) := rely_call _ rfl
  have found : ∀ x, h₁.Holds p pod x → found? = some x := by
    intro x hx
    exact l₁.2.eq_of_getLease (fun y hy => only y (l₁.1.holds y hy)) hr hx
  cases found? with
  | none =>
    intro k later x hx
    have absent := found x (read.holds x (later.1.holds x hx))
    contradiction
  | some l =>
    have same : ∀ x, h₁.Holds p pod x → x = l := fun x hx => (Option.some.inj (found x hx)).symm
    simp only
    split
    · rename_i notHeld
      intro k later x hx
      have old := read.holds x (later.1.holds x hx)
      have held := old.held
      rw [same x old] at held
      simp [held] at notHeld
    · refine meets_reply ?_
      intro h₂ l₂
      have R := read.trans l₂.1
      cases hr : h₂.reply (.updateLease (l.edit .release)) with
      | ok m =>
        -- The release was stored, and the pod held nothing but this lease.
        have hs : StoreCall.stored? _ (h₂.reply _) = some m := congrArg _ hr
        have free : ∀ x, ¬ (h₂.call i n (.updateLease (l.edit .release))).Holds p pod x :=
          not_holds_of_release (fun y hy => same y (R.holds y hy)) hs
        exact ⟨l₂.2.tidy.mono (fun x hx => absurd hx (free x)) fun _ => id,
          fun k later x hx => free x (later.1.holds x hx)⟩
      | error e =>
        have hs : StoreCall.stored? _ (h₂.reply _) = none := congrArg _ hr
        refine ⟨l₂.2.tidy_call hs, ?_⟩
        simp only
        split
        · exact fun _ _ => trivial
        · split
          · rename_i gone
            intro k later x hx
            have old := (rely_call job hs).holds x (later.1.holds x hx)
            refine History.get?_ne_of_race hr (by simp [gone]) ?_
            rw [← same x (R.holds x old)]
            exact old.stored
          · exact fun _ _ => trivial

omit named in
/-- **A release by a member controller** keeps to its terms. -/
theorem meets_releaseMember {c : Participant} (agrees : c.pool.Agrees p) (hc : c.pod = pod) :
    c.releaseMember.Meets (terms p pod i n job) (fun _ _ => True) h := by
  subst hc
  refine Operation.meets_ask fun h₁ l₁ => ⟨trivial, ?_⟩
  intro held? k a
  obtain ⟨(hk : held? = h₁.held? i), rfl⟩ := eq_of_ask_heldLease a
  cases held? with
  | none => exact fun _ _ => trivial
  | some name =>
    refine Operation.meets_bind ((meets_release agrees (l₁.2.tidy.known name hk.symm)).weaken
      ?_)
    intro r k' hr
    split
    · intro h₂ l₂
      exact ⟨fun _ _ x hx => hr x (l₂.1.holds x hx), fun _ _ _ _ _ => trivial⟩
    · exact fun _ _ => trivial

end

end Member

end LeasePool
