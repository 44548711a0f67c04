import LeasePool.Proofs.Fleet.HandOvers

/-!
# When a lease was acquired

A lease says since when it is held. Its holder has an unbroken tenure, from the claim on that made
the lease his own, through renewals and corrections, up to now. The time that the lease tells is
that of this claim if nobody had ever claimed the lease before, or if it was taken from somebody
else. But a lease that is given up keeps the time at which it was acquired, and a claim on such a
lease leaves it as it is. So whoever claims a lease that was given up is said to have acquired it
when some earlier holder did.
-/

namespace LeasePool

namespace Lease

/-- What version `b` of a lease says about its holder, against version `a` right before it. -/
inductive Follows (b a : Lease) : Prop
  /-- The holder is the same. -/
  | corrected (holder : b.claim.holder = a.claim.holder)
    (acquired : b.claim.acquired = a.claim.acquired)
  /-- Somebody claims the lease or renews the claim. -/
  | claimed {holder : String} {now : Stamp} (holds : b.claim.holder = some holder)
    (renewed : b.claim.renewed = some now)
    (acquired : b.claim.acquired =
      if Claim.isTakenOverBy holder a.holder? then some now
      else some (a.claim.acquired.getD now))
  /-- The holder gives the lease up. -/
  | released {holder : String} (held : a.isHeldBy holder = true)
    (blank : b.claim.holder = some "") (acquired : b.claim.acquired = a.claim.acquired)

/-- An edit for which there is a reason makes a version that follows. -/
theorem follows_of_justified {W : Warrant} {p : Pool} {h : History} {s : MemoryStore} {a : Lease}
    {e : Edit} (why : W.Justifies p h a e) : (s.stamped (a.edit e)).Follows a := by
  cases why with
  | manage => exact .corrected rfl rfl
  | @claim holder now =>
    have holds : (a.edit (.claim holder (.utc now))).claim.holder = some holder :=
      claim_holder_claim
    refine .claimed holds claim_renewed_claim ?_
    simp only [MemoryStore.claim_stamped, edit, Claim.renewedBy]
    split <;> rfl
  | release _ held => exact .released held rfl rfl

/-- A lease that nobody has ever claimed or given up. A lease that was given up has a blank
holder. -/
def IsUnclaimed (l : Lease) : Prop := l.claim.holder = none

instance (l : Lease) : Decidable l.IsUnclaimed := inferInstanceAs (Decidable (_ = _))

/-- The versions of a lease, of which `l` is the last one, from its creation on. -/
inductive IsLineage : Lease → List Lease → Prop
  | created {l : Lease} (unclaimed : l.IsUnclaimed) (acquired : l.claim.acquired = none) :
    IsLineage l []
  | edited {l m : Lease} {older : List Lease} (before : IsLineage m older) (follows : l.Follows m) :
    IsLineage l (m :: older)

variable {l : Lease} {older : List Lease} {holder : String}

/-- A lease says since when it is held as soon as it has been claimed, and not before. -/
theorem IsLineage.acquired_eq_none_iff (H : IsLineage l older) :
    l.claim.acquired = none ↔ l.IsUnclaimed := by
  rw [IsUnclaimed]
  induction H with
  | created unclaimed acquired => simp [acquired, show _ = none from unclaimed]
  | edited _ follows ih =>
    cases follows with
    | corrected same acquired => rw [same, acquired, ih]
    | claimed holds _ acquired =>
      rw [holds, acquired]
      split <;> simp
    | released held blank acquired =>
      rw [blank, acquired, ih, (isHeldBy_iff.1 held).1]
      simp

/-- A lease that has not been claimed yet has never been. -/
theorem IsLineage.isUnclaimed_of_mem (H : IsLineage l older) (unclaimed : l.IsUnclaimed) :
    ∀ m ∈ older, m.IsUnclaimed := by
  induction H with
  | created => simp
  | @edited l m older _ follows ih =>
    have before : m.IsUnclaimed := by
      rw [IsUnclaimed] at unclaimed ⊢
      cases follows with
      | corrected same => rw [← same, unclaimed]
      | claimed holds => simp [holds] at unclaimed
      | released _ blank => simp [blank] at unclaimed
    intro k hk
    rcases List.mem_cons.1 hk with rfl | hk
    · exact before
    · exact ih before k hk

/-- A version that somebody holds either goes on with the tenure of the version before, or it was
made by a claim. -/
theorem Follows.cases_of_isHeldBy {m : Lease} (H : l.Follows m) (held : l.isHeldBy holder = true)
    (claimed : m.claim.acquired = none ↔ m.IsUnclaimed) :
    (m.isHeldBy holder = true ∧ l.claim.acquired = m.claim.acquired) ∨
      (m.isHeldBy holder = false ∧ ∃ now, l.claim.renewed = some now ∧
        l.claim.acquired =
          if m.IsUnclaimed ∨ m.holder?.isSome then some now else m.claim.acquired) := by
  obtain ⟨holds, visible⟩ := isHeldBy_iff.1 held
  cases H with
  | corrected same acquired =>
    left
    exact ⟨isHeldBy_iff.2 ⟨same ▸ holds, visible⟩, acquired⟩
  | released _ blank =>
    -- Nobody holds what was given up.
    rw [blank, Option.some.injEq] at holds
    subst holds
    simp [Text.isBlankText] at visible
  | @claimed holder' now holds' renewed acquired =>
    obtain rfl : holder = holder' := by
      rw [holds, Option.some.injEq] at holds'
      exact holds'
    by_cases own : m.isHeldBy holder = true
    · left
      have past : m.claim.acquired ≠ none := by
        rw [ne_eq, claimed, IsUnclaimed, (isHeldBy_iff.1 own).1]
        simp
      obtain ⟨since, known⟩ := Option.ne_none_iff_exists'.1 past
      have same : m.holder? = some holder := by simpa [isHeldBy] using own
      simp [acquired, Claim.isTakenOverBy, same, known, own]
    · right
      refine ⟨by simpa using own, now, renewed, ?_⟩
      rw [acquired]
      cases other : m.holder? with
      | some p =>
        have ne : p ≠ holder := by
          rintro rfl
          simp [isHeldBy, other] at own
        simp [Claim.isTakenOverBy, ne]
      | none =>
        by_cases unclaimed : m.IsUnclaimed
        · simp [Claim.isTakenOverBy, unclaimed, claimed.2 unclaimed]
        · obtain ⟨since, known⟩ := Option.ne_none_iff_exists'.1 (mt claimed.1 unclaimed)
          simp [Claim.isTakenOverBy, unclaimed, known]

/-- **A tenure begins with a claim**, and the time that the lease tells stays the same from then
on. -/
theorem IsLineage.exists_claim (H : IsLineage l older) (held : l.isHeldBy holder = true) :
    ∃ first before rest now,
      ((l :: older).takeWhile fun m => m.isHeldBy holder).getLast? = some first ∧
      ((l :: older).dropWhile fun m => m.isHeldBy holder) = before :: rest ∧
      first.isHeldBy holder = true ∧ before.isHeldBy holder = false ∧ IsLineage before rest ∧
      first.claim.renewed = some now ∧
      l.claim.acquired =
        if before.IsUnclaimed ∨ before.holder?.isSome then some now else before.claim.acquired := by
  induction H with
  | created unclaimed =>
    rw [isHeldBy_iff, show _ = none from unclaimed] at held
    simp at held
  | @edited l m older past follows ih =>
    rcases follows.cases_of_isHeldBy held past.acquired_eq_none_iff with
      ⟨own, acquired⟩ | ⟨other, now, renewed, acquired⟩
    · obtain ⟨first, before, rest, now, begins, ends, facts⟩ := ih own
      refine ⟨first, before, rest, now, ?_, ?_, ?_⟩
      · rw [List.takeWhile_cons, if_pos held, List.getLast?_cons, begins]
        rfl
      · rw [List.dropWhile_cons, if_pos held, ends]
      · rwa [acquired]
    · refine ⟨l, m, older, now, ?_, ?_, held, other, past, renewed, acquired⟩
      · simp [held, other]
      · simp [held, other]

end Lease

namespace History

/-- The versions of the unbroken tenure of a holder up to now, the last one first. -/
def tenure (h : History) (k : LeaseKey) (holder : String) : List Lease :=
  (h.versionsOf k).takeWhile fun l => l.isHeldBy holder

/-- What the claim has stored that the tenure of a holder began with. -/
def beginning? (h : History) (k : LeaseKey) (holder : String) : Option Lease :=
  (h.tenure k holder).getLast?

/-- The versions from before the tenure of a holder, the last one first. -/
def formerVersions (h : History) (k : LeaseKey) (holder : String) : List Lease :=
  (h.versionsOf k).dropWhile fun l => l.isHeldBy holder

/-- What was stored right before the tenure of a holder. -/
def beforehand? (h : History) (k : LeaseKey) (holder : String) : Option Lease :=
  (h.formerVersions k holder).head?

/-- What the lease `l` says about the tenure of its holder, which began when `first` was stored in
place of `before`. -/
structure DatesTenure (h : History) (k : LeaseKey) (holder : String) (l first before : Lease) :
    Prop where
  beginning : h.beginning? k holder = some first
  beforehand : h.beforehand? k holder = some before
  /-- The tenure began with a claim, of a lease that the holder did not hold. -/
  claimed : first.isHeldBy holder = true ∧ first.claim.renewed.isSome = true ∧
    before.isHeldBy holder = false
  /-- If nobody had ever claimed the lease, or if somebody else held it, then the lease was acquired
  with this claim. -/
  dated : before.IsUnclaimed ∨ before.holder?.isSome = true →
    l.claim.acquired = first.claim.renewed
  /-- Of a lease that was given up the time stays the one at which it was acquired before. -/
  outdated : ¬ before.IsUnclaimed → before.holder? = none →
    l.claim.acquired.isSome = true ∧ l.claim.acquired = before.claim.acquired
  /-- A lease that has not been claimed yet has never been. -/
  unclaimed : before.IsUnclaimed → ∀ m ∈ h.formerVersions k holder, m.IsUnclaimed

/-- All leases that were created have their versions in order. -/
structure HasLineages (h : History) : Prop where
  /-- What is stored is the last version. -/
  current : ∀ k, (h.versionsOf k).head? = h.scene.store.leases.get? k
  lineage : ∀ k, h.IsCreated k → ∀ l older, h.versionsOf k = l :: older → l.IsLineage older

variable {h h' : History} {k : LeaseKey} {l : Lease} {holder : String}

/-- **What a lease says about the tenure of its holder.** -/
theorem HasLineages.exists_datesTenure (L : h.HasLineages) (created : h.IsCreated k)
    (stored : h.scene.store.leases.get? k = some l) (held : l.isHeldBy holder = true) :
    ∃ first before, h.DatesTenure k holder l first before := by
  obtain ⟨older, versions⟩ := List.head?_eq_some_iff.1 ((L.current k).trans stored)
  obtain ⟨first, before, rest, now, begins, ends, own, other, past, renewed, acquired⟩ :=
    (L.lineage k created l older versions).exists_claim held
  refine ⟨first, before, ?_, ?_, ⟨own, by simp [renewed], other⟩, ?_, ?_, ?_⟩
  · rw [beginning?, tenure, versions, begins]
  · rw [beforehand?, formerVersions, versions, ends, List.head?_cons]
  · intro fresh
    rw [acquired, if_pos fresh, renewed]
  · intro claimed vacant
    have known : before.claim.acquired ≠ none := mt past.acquired_eq_none_iff.1 claimed
    rw [acquired, if_neg (by simp [claimed, vacant])]
    exact ⟨Option.isSome_iff_ne_none.2 known, rfl⟩
  · intro unclaimed m hm
    rw [formerVersions, versions, ends] at hm
    rcases List.mem_cons.1 hm with rfl | hm
    · exact unclaimed
    · exact past.isUnclaimed_of_mem unclaimed m hm

/-- While no lease is written the versions stay in order. -/
theorem HasLineages.quiet (L : h.HasLineages) (q : h.Quiet h') : h'.HasLineages := by
  constructor
  · intro k
    rw [q.leases, versionsOf, q.leases_eq]
    exact L.current k
  · intro k created l older
    rw [IsCreated, q.origin] at created
    rw [versionsOf, q.leases_eq]
    exact L.lineage k created l older

/-- **A call for which there is a reason** keeps the versions in order. -/
theorem HasLineages.call {W : Warrant} {p : Pool} {c : StoreCall} (L : h.HasLineages)
    (sound : h.IsSound) (A : W.Allows p h c) (i n : Nat) : (h.call i n c).HasLineages := by
  cases hs : c.stored? (h.reply c) with
  | none =>
    constructor
    · intro k
      rw [versionsOf_call_of_not_stored hs, scene_call_of_not_stored hs]
      exact L.current k
    · intro k created l older
      rw [versionsOf_call_of_not_stored hs]
      exact L.lineage k created l older
  | some l =>
    refine ⟨head?_versionsOf_call L.current hs, ?_⟩
    intro k created m older versions
    rw [versionsOf_call hs] at versions
    split at versions
    · rename_i own
      obtain ⟨rfl, rfl⟩ := List.cons.inj versions
      rcases A.of_stored sound hs with
        ⟨role, name, owners, rfl, -, free, rfl⟩ | ⟨b, e, rfl, stored, rfl, why⟩
      · -- There is no version of a lease that is created.
        have none : h.versionsOf k = [] := by
          rw [← own, ← List.head?_eq_none_iff, L.current]
          exact free
        rw [none]
        exact .created rfl rfl
      · have key : b.key = k := by rw [← own, MemoryStore.key_stamped, Lease.key_edit]
        obtain ⟨rest, versions⟩ :=
          List.head?_eq_some_iff.1 ((L.current k).trans (key ▸ stored))
        rw [versions]
        exact .edited (L.lineage k created b rest versions) (Lease.follows_of_justified why)
    · exact L.lineage k created m older versions

end History

namespace Fleet

/-- In the beginning all versions are in order. -/
theorem IsNew.hasLineages {f : Fleet} (new : f.IsNew) : f.toHistory.HasLineages := by
  constructor
  · exact (new.isSuccessive []).current
  · intro k created l older versions
    rw [new.versionsOf_eq_nil created] at versions
    contradiction

/-- **When a lease was acquired**, whatever the replicas do, as long as they work on leases that
were read from the store. Whoever holds a lease that one of them has created holds it since a
claim, and the time that the lease tells is that of the claim if nobody had claimed the lease before
or if somebody else held it. After a release it stays the time from before the release. -/
theorem datesTenure_of_reaches {f g : Fleet} (new : f.IsNew) (run : Reaches Informed f g)
    {k : LeaseKey} {l : Lease} {holder : String} (created : g.IsCreated k)
    (stored : g.scene.store.leases.get? k = some l) (held : l.isHeldBy holder = true) :
    ∃ first before, g.DatesTenure k holder l first before := by
  have both : g.IsDisciplined f.scene.participantOf ∧ g.toHistory.HasLineages := by
    clear created stored held
    induction run with
    | refl => exact ⟨new.isDisciplined, new.hasLineages⟩
    | @tail g g' _ turn ih =>
      obtain ⟨m, hm, turn⟩ := turn
      obtain ⟨D, L⟩ := ih
      refine ⟨D.turn turn hm, ?_⟩
      rcases quiet_or_call turn with quiet | ⟨n, e, c, next, -, he, hr, same⟩
      · exact L.quiet quiet
      · rw [same]
        exact L.call D.sound (D.allows he hr) _ _
  exact both.2.exists_datesTenure created stored held

/-- A member lease is claimed, taken over after 31 seconds, given up, and claimed once more after 10
more seconds. -/
def relay : List Move :=
  [.begin 0 (.ensureMember "member")] ++ Move.goes 0 2 ++
    [.begin 0 (.renewByName "member" "a")] ++ Move.goes 1 4 ++ [.advance ⟨31000000000⟩] ++
    [.begin 1 (.renewByName "member" "b")] ++ Move.goes 2 4 ++
    [.begin 1 (.releaseLease "b" "member")] ++ Move.goes 3 2 ++ [.advance ⟨10000000000⟩] ++
    [.begin 0 (.renewByName "member" "a")] ++ Move.goes 4 4

/-- The lease says that it was acquired by the holder before. -/
theorem datesTenure_relay :
    ∃ g l first before, disagreeing.run? (fun f m => f.Informed m) relay = some g ∧
      g.IsCreated ⟨"ns", "member"⟩ ∧
      g.scene.store.leases.get? ⟨"ns", "member"⟩ = some l ∧ l.isHeldBy "a" = true ∧
      l.claim.acquired = some (.utc ⟨31000000000⟩) ∧
      g.DatesTenure ⟨"ns", "member"⟩ "a" l first before := by
  have leads : disagreeing.leadsTo (fun f m => f.Informed m) relay (fun g => g.origin = [] ∧
      (g.scene.store.leases.get? ⟨"ns", "member"⟩).any fun l =>
        l.isHeldBy "a" ∧ l.claim.acquired = some (.utc ⟨31000000000⟩)) = true := by
    decide +kernel
  obtain ⟨g, run, property⟩ := exists_of_leadsTo leads
  obtain ⟨origin, there⟩ := of_decide_eq_true property
  obtain ⟨l, stored, said⟩ := (Option.any_eq_true _ _).1 there
  obtain ⟨held, acquired⟩ := of_decide_eq_true said
  have created : g.IsCreated ⟨"ns", "member"⟩ := by simp [History.IsCreated, origin]
  have reached : Reaches Informed disagreeing g :=
    reaches_of_run? (fun _ _ h => of_decide_eq_true h) run
  obtain ⟨first, before, dates⟩ :=
    datesTenure_of_reaches (isNew_ofParticipants _ _) reached created stored held
  exact ⟨g, l, first, before, run, created, stored, held, acquired, dates⟩

/-- **The time of acquisition can be earlier than the tenure**: the holder has claimed the lease
after 41 seconds, but the time is that of the holder before, after 31 seconds. -/
theorem acquired_before_claim :
    ∃ g l first, disagreeing.run? (fun f m => f.Informed m) relay = some g ∧
      g.IsCreated ⟨"ns", "member"⟩ ∧
      g.scene.store.leases.get? ⟨"ns", "member"⟩ = some l ∧ l.holder? = some "a" ∧
      g.beginning? ⟨"ns", "member"⟩ "a" = some first ∧
      first.claim.renewed = some (.utc ⟨41000000000⟩) ∧
      l.claim.acquired = some (.utc ⟨31000000000⟩) := by
  have leads : disagreeing.leadsTo (fun f m => f.Informed m) relay (fun g => g.origin = [] ∧
      ((g.scene.store.leases.get? ⟨"ns", "member"⟩).any fun l =>
        l.holder? = some "a" ∧ l.claim.acquired = some (.utc ⟨31000000000⟩)) ∧
      (g.beginning? ⟨"ns", "member"⟩ "a").any fun first =>
        first.claim.renewed = some (.utc ⟨41000000000⟩)) = true := by
    decide +kernel
  obtain ⟨g, run, property⟩ := exists_of_leadsTo leads
  obtain ⟨origin, there, begun⟩ := of_decide_eq_true property
  obtain ⟨l, stored, said⟩ := (Option.any_eq_true _ _).1 there
  obtain ⟨held, acquired⟩ := of_decide_eq_true said
  obtain ⟨first, begins, renewed⟩ := (Option.any_eq_true _ _).1 begun
  exact ⟨g, l, first, run, by simp [History.IsCreated, origin], stored, held, begins,
    of_decide_eq_true renewed, acquired⟩

end Fleet

end LeasePool
