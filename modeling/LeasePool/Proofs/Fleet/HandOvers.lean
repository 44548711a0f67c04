import LeasePool.Proofs.Fleet.Succession

/-!
# Hand-overs

A lease says of itself how often it has gone from one holder to another. A replica works the
number out from a copy that it read some time before. But a claim on an outdated copy is not
stored, and so the number is that of the stored renewals that took the lease from the holder it
had right before, however the requests are interleaved. First claims, claims after a release,
renewals by the holder, releases and corrections are not counted. A hand-over for which there is no
room in the number is not stored.
-/

namespace LeasePool

namespace Lease

/-- How often the lease has gone from one holder to another, as it says itself. Saying nothing
counts as zero. -/
def transitions (l : Lease) : Int := (l.claim.transitions.getD 0).toInt

/-- Whether an edit takes the lease from its holder. A blank identity is no holder. -/
def isHandedOver (l : Lease) : Edit → Bool
  | .claim holder _ => Claim.isTakenOverBy holder l.holder?
  | .manage .. | .release => false

/-- Whether an edit is no hand-over, or one that can be counted. -/
def IsCounted (l : Lease) : Edit → Prop
  | .claim holder _ => l.admits holder = true
  | .manage .. | .release => True

/-- **What an edit does to the count.** -/
theorem claim_transitions_edit {l : Lease} {e : Edit} (counts : l.IsCounted e) :
    (l.edit e).claim.transitions =
      if l.isHandedOver e then some (l.claim.transitions.getD 0 + 1) else l.claim.transitions := by
  cases e with
  | claim holder now =>
    cases taken : Claim.isTakenOverBy holder l.holder? with
    | true => simp [isHandedOver, taken, (claim_transitions_of_taken counts taken).2]
    | false => simp [isHandedOver, taken, claim_transitions_of_not_taken taken]
  | manage | release => rfl

/-- A hand-over adds one. -/
theorem transitions_edit {l : Lease} {e : Edit} (counts : l.IsCounted e) :
    (l.edit e).transitions = l.transitions + if l.isHandedOver e then 1 else 0 := by
  rw [transitions, claim_transitions_edit counts]
  split
  · rename_i taken
    cases e with
    | claim holder now =>
      exact toInt_succ (claim_transitions_of_taken (t := now) counts taken).1
    | manage | release => contradiction
  · exact (Int.add_zero _).symm

/-- What a participant has a reason for can be counted. -/
theorem isCounted_of_justified {W : Warrant} {p : Pool} {h : History} {l : Lease} {e : Edit}
    (why : W.Justifies p h l e) : l.IsCounted e := by
  cases why with
  | claim claims past counts free => exact counts
  | manage | release => trivial

theorem isHandedOver_iff {l : Lease} {e : Edit} :
    l.isHandedOver e = true ↔
      ∃ holder now p, e = .claim holder now ∧ l.holder? = some p ∧ p ≠ holder := by
  cases e with
  | claim holder now => simp [isHandedOver, Claim.isTakenOverBy, Option.any_eq_true]
  | manage | release => simp [isHandedOver]

end Lease

namespace Exchange

/-- A stored renewal that took a lease from its holder: the claim is a renewed one, and right
before somebody other than its holder held the lease. -/
def isHandOver (w : Exchange) : Bool :=
  match w.before, w.stored? with
  | some old, some new =>
    new.claim.renewed.isSome && old.holder?.any fun p => new.claim.holder ≠ some p
  | _, _ => false

/-- Whether what was stored lies under a key. -/
def isUnder (k : LeaseKey) (w : Exchange) : Bool := w.stored?.any fun l => l.key = k

/-- A hand-over is an edit that takes the lease from its holder. -/
theorem isHandOver_of_edit {w : Exchange} {s : MemoryStore} {old : Lease} {e : Edit}
    (hb : w.before = some old) (hs : w.stored? = some (s.stamped (old.edit e))) :
    w.isHandOver = old.isHandedOver e := by
  simp only [isHandOver, hb, hs, MemoryStore.claim_stamped]
  cases e with
  | claim holder now =>
    simp only [Lease.claim_renewed_claim, Lease.claim_holder_claim, Lease.isHandedOver,
      Claim.isTakenOverBy]
    cases old.holder? with
    | none => rfl
    | some p => simp [bne, beq_eq_decide, eq_comm (a := p)]
  | release => rfl
  | manage labels duration =>
    -- The holder stays the same, and so nobody else held the lease before.
    rw [Lease.isHandedOver, Bool.and_eq_false_iff]
    right
    cases held : old.holder? with
    | none => rfl
    | some p =>
      have holder : old.claim.holder = some p := (Option.filter_eq_some_iff.1 held).1
      simp [Lease.edit, holder]

end Exchange

namespace History

/-- How many hand-overs there were of the lease with a key. -/
def handOvers (h : History) (k : LeaseKey) : Nat :=
  h.log.countP fun w => w.isHandOver && w.isUnder k

/-- There was no lease under a key in the beginning: if there is one now, then it was created by a
participant. -/
def IsCreated (h : History) (k : LeaseKey) : Prop := ∀ l ∈ h.origin, l.key ≠ k

/-- All leases count their hand-overs. -/
structure CountsHandOvers (h : History) : Prop where
  /-- What is stored is the last version. -/
  current : ∀ k, (h.versionsOf k).head? = h.scene.store.leases.get? k
  /-- A lease that is created has not been handed over. -/
  created : ∀ w ∈ h.log, ∀ new, w.stored? = some new → w.before = none →
    new.claim.transitions = none
  /-- Whatever else is stored is an edit of what was stored right before. If it is a hand-over,
  then it is a claim of a lease that somebody else holds, and it is counted; no other edit changes
  the count. -/
  edited : ∀ w ∈ h.log, ∀ old new, w.before = some old → w.stored? = some new →
    ∃ e, w.call = .updateLease (old.edit e) ∧
      (w.isHandOver = true ↔ ∃ holder now p, e = .claim holder now ∧ old.holder? = some p ∧
        p ≠ holder) ∧
      new.claim.transitions =
        if w.isHandOver then some (old.claim.transitions.getD 0 + 1) else old.claim.transitions
  /-- What a lease says is how many hand-overs there were. -/
  counted : ∀ k l, h.IsCreated k → h.scene.store.leases.get? k = some l →
    l.transitions = h.handOvers k
  /-- No version of a lease says less than one before. -/
  ascending : ∀ k, h.IsCreated k →
    (h.versionsOf k).Pairwise fun newer older => older.transitions ≤ newer.transitions

variable {h h' : History}

/-- A lease of which there is no version has not been handed over. -/
theorem handOvers_eq_zero {k : LeaseKey} (none : h.versionsOf k = []) : h.handOvers k = 0 := by
  rw [handOvers, List.countP_eq_zero]
  intro w hw
  rw [Bool.and_eq_true, not_and]
  intro _ under
  obtain ⟨l, hl, key⟩ := (Option.any_eq_true _ _).1 under
  have : l ∈ h.versionsOf k :=
    List.mem_filter.2 ⟨List.mem_append_left _ (List.mem_filterMap.2 ⟨w, hw, hl⟩), key⟩
  rw [none] at this
  contradiction

/-- While no lease is written all leases go on saying the right number. -/
theorem CountsHandOvers.quiet (C : h.CountsHandOvers) (q : h.Quiet h') : h'.CountsHandOvers := by
  have created : ∀ k, h'.IsCreated k → h.IsCreated k := fun k hk => by rwa [IsCreated, ← q.origin]
  have same : ∀ k, h'.handOvers k = h.handOvers k := fun k => by rw [handOvers, q.same, handOvers]
  refine ⟨?_, ?_, ?_, ?_, ?_⟩
  · intro k
    rw [q.leases, versionsOf, q.leases_eq]
    exact C.current k
  · rw [q.same]; exact C.created
  · rw [q.same]; exact C.edited
  · intro k l hk hl
    rw [q.leases] at hl
    rw [same]
    exact C.counted k l (created k hk) hl
  · intro k hk
    rw [versionsOf, q.leases_eq]
    exact C.ascending k (created k hk)

/-- A write is right about the hand-overs so far: it is a creation or an edit of what was stored
right before, and what it stores counts the hand-overs of its key, the write included. -/
structure IsRight (h : History) (w : Exchange) (l : Lease) : Prop where
  created : w.before = none → l.claim.transitions = none
  edited : ∀ old, w.before = some old → ∃ e, w.call = .updateLease (old.edit e) ∧
    w.isHandOver = old.isHandedOver e ∧ old.IsCounted e ∧
    l.claim.transitions = (old.edit e).claim.transitions
  counted : h.IsCreated l.key →
    l.transitions = (h.handOvers l.key + if w.isHandOver then 1 else 0 : Nat)
  most : h.IsCreated l.key → ∀ m ∈ h.versionsOf l.key, m.transitions ≤ l.transitions

/-- A creation is right: there is no version of the lease, and so no hand-over. -/
theorem isRight_of_create {w : Exchange} {l : Lease} (before : w.before = none)
    (new : l.claim.transitions = none) (free : h.versionsOf l.key = []) : h.IsRight w l := by
  have other : w.isHandOver = false := by rw [Exchange.isHandOver, before]
  refine ⟨fun _ => new, ?_, fun _ => ?_, fun _ => ?_⟩
  · rw [before]
    exact fun _ hn => (Option.some_ne_none _ hn.symm).elim
  · rw [handOvers_eq_zero free, other, Lease.transitions, new]
    rfl
  · rw [free]
    exact fun _ hm => absurd hm List.not_mem_nil

/-- **An edit of what is stored is right** if it can be counted, and if all leases have been right
before. -/
theorem CountsHandOvers.isRight_of_edit (C : h.CountsHandOvers) {w : Exchange} {s : MemoryStore}
    {b : Lease} {e : Edit} (stored : h.scene.store.leases.get? b.key = some b)
    (counts : b.IsCounted e) (hc : w.call = .updateLease (b.edit e)) (hb : w.before = some b)
    (hs : w.stored? = some (s.stamped (b.edit e))) : h.IsRight w (s.stamped (b.edit e)) := by
  have hand : w.isHandOver = b.isHandedOver e := Exchange.isHandOver_of_edit hb hs
  have key : (s.stamped (b.edit e)).key = b.key := Lease.key_edit
  have after : (s.stamped (b.edit e)).transitions =
      b.transitions + if w.isHandOver then 1 else 0 := by
    rw [hand]
    exact Lease.transitions_edit counts
  refine ⟨?_, ?_, ?_, ?_⟩
  · rw [hb]
    exact fun hn => (Option.some_ne_none _ hn).elim
  · rw [hb]
    intro old same
    obtain rfl := Option.some.inj same
    exact ⟨e, hc, hand, counts, rfl⟩
  · rw [key]
    intro created
    rw [after, C.counted _ b created stored]
    split <;> rfl
  · -- The version right before says the most of those so far.
    rw [key]
    intro created m hm
    obtain ⟨rest, versions⟩ := List.head?_eq_some_iff.1 ((C.current _).trans stored)
    have ascending := C.ascending b.key created
    rw [versions] at ascending hm
    have most : m.transitions ≤ b.transitions := by
      rcases List.mem_cons.1 hm with rfl | hm
      · exact Int.le_refl _
      · exact (List.pairwise_cons.1 ascending).1 m hm
    rw [after]
    split <;> omega

/-- What a call adds to the log. -/
def exchange (h : History) (replica errand : Nat) (c : StoreCall) : Exchange :=
  { errand, pod := h.scene.podOf replica, time := h.now, call := c, reply := h.reply c
    before := c.written?.bind fun l => h.scene.store.leases.get? l.key }

/-- Every write for which there is a reason is right. -/
theorem CountsHandOvers.isRight {W : Warrant} {p : Pool} (C : h.CountsHandOvers) (k : h.IsSound)
    {c : StoreCall} (A : W.Allows p h c) {l : Lease} (hs : c.stored? (h.reply c) = some l)
    (i n : Nat) : h.IsRight (h.exchange i n c) l := by
  rcases A.of_stored k hs with
    ⟨role, name, owners, rfl, -, free, rfl⟩ | ⟨b, e, rfl, stored, rfl, why⟩
  · exact isRight_of_create free rfl (List.head?_eq_none_iff.1 ((C.current _).trans free))
  · have before : (h.exchange i n (.updateLease (b.edit e))).before = some b := by
      rw [← stored, ← Lease.key_edit (e := e)]; rfl
    exact C.isRight_of_edit stored (Lease.isCounted_of_justified why) rfl before hs

variable {i n : Nat} {c : StoreCall}

/-- The hand-overs after a call. -/
theorem handOvers_call (k : LeaseKey) :
    (h.call i n c).handOvers k =
      h.handOvers k + if (h.exchange i n c).isHandOver &&
        (c.stored? (h.reply c)).any fun l => l.key = k then 1 else 0 :=
  List.countP_cons

/-- What stores nothing leaves all leases right. -/
theorem CountsHandOvers.call_of_not_stored (C : h.CountsHandOvers)
    (hs : c.stored? (h.reply c) = none) : (h.call i n c).CountsHandOvers := by
  have same : ∀ k, (h.call i n c).handOvers k = h.handOvers k := by
    intro k
    rw [handOvers_call, hs]
    simp
  refine ⟨?_, ?_, ?_, ?_, ?_⟩
  · intro k
    rw [versionsOf_call_of_not_stored hs, scene_call_of_not_stored hs]
    exact C.current k
  · rw [log_call, List.forall_mem_cons, Exchange.stored?, hs]
    exact ⟨fun _ hn => (Option.some_ne_none _ hn.symm).elim, C.created⟩
  · rw [log_call, List.forall_mem_cons, Exchange.stored?, hs]
    exact ⟨fun _ _ _ hn => (Option.some_ne_none _ hn.symm).elim, C.edited⟩
  · intro k l created
    rw [scene_call_of_not_stored hs, same]
    exact C.counted k l created
  · intro k created
    rw [versionsOf_call_of_not_stored hs]
    exact C.ascending k created

/-- **After a write that is right** all leases are. -/
theorem CountsHandOvers.call_of_stored (C : h.CountsHandOvers) {l : Lease}
    (hs : c.stored? (h.reply c) = some l) (right : h.IsRight (h.exchange i n c) l) :
    (h.call i n c).CountsHandOvers := by
  have own : (h.call i n c).handOvers l.key =
      h.handOvers l.key + if (h.exchange i n c).isHandOver then 1 else 0 := by
    rw [handOvers_call, hs]
    simp
  have others : ∀ k, l.key ≠ k → (h.call i n c).handOvers k = h.handOvers k := by
    intro k other
    rw [handOvers_call, hs]
    simp [other]
  refine ⟨head?_versionsOf_call C.current hs, ?_, ?_, ?_, ?_⟩
  · rw [log_call, List.forall_mem_cons]
    refine ⟨?_, C.created⟩
    intro new same
    obtain rfl := Option.some.inj (hs.symm.trans same)
    exact right.created
  · rw [log_call, List.forall_mem_cons]
    refine ⟨?_, C.edited⟩
    intro old new before same
    obtain rfl := Option.some.inj (hs.symm.trans same)
    obtain ⟨e, hc, hand, counts, after⟩ := right.edited old before
    exact ⟨e, hc, hand ▸ Lease.isHandedOver_iff,
      hand ▸ after.trans (Lease.claim_transitions_edit counts)⟩
  · intro k m created hm
    rw [get?_call_of_stored hs] at hm
    split at hm
    · rename_i same
      obtain rfl := Option.some.inj hm
      subst same
      rw [own]
      exact right.counted created
    · rename_i other
      rw [others k (Ne.symm other)]
      exact C.counted k m created hm
  · intro k created
    rw [versionsOf_call hs]
    split
    · rename_i same
      subst same
      exact List.pairwise_cons.2 ⟨right.most created, C.ascending _ created⟩
    · exact C.ascending k created

/-- **A call for which there is a reason** keeps all leases right. -/
theorem CountsHandOvers.call {W : Warrant} {p : Pool} (C : h.CountsHandOvers) (k : h.IsSound)
    (A : W.Allows p h c) (i n : Nat) : (h.call i n c).CountsHandOvers := by
  cases hs : c.stored? (h.reply c) with
  | none => exact C.call_of_not_stored hs
  | some l => exact C.call_of_stored hs (C.isRight k A hs i n)

end History

namespace Fleet

/-- In the beginning there are no versions of leases that are yet to be created. -/
theorem IsNew.versionsOf_eq_nil {f : Fleet} (new : f.IsNew) {k : LeaseKey}
    (created : f.IsCreated k) : f.versionsOf k = [] := by
  rw [History.versionsOf, History.leases, new.log, List.filterMap_nil, List.nil_append,
    List.filter_eq_nil_iff]
  intro l hl
  simpa using created l hl

/-- In the beginning all leases are right. -/
theorem IsNew.countsHandOvers {f : Fleet} (new : f.IsNew) : f.toHistory.CountsHandOvers := by
  have current := (new.isSuccessive []).current
  refine ⟨current, ?_, ?_, ?_, ?_⟩
  · rw [new.log]
    exact fun _ hw => absurd hw List.not_mem_nil
  · rw [new.log]
    exact fun _ hw => absurd hw List.not_mem_nil
  · intro k l created hl
    rw [← current, new.versionsOf_eq_nil created] at hl
    contradiction
  · intro k created
    rw [new.versionsOf_eq_nil created]
    exact .nil

/-- **A lease counts its hand-overs**, whatever the replicas do, as long as they work on leases
that were read from the store. Of a lease that one of them created, the number that it says is the
number of stored renewals that took it from the holder it had right before. So no version says less
than one before; and a first claim, a claim after a release, a renewal by the holder, a release and
a correction leave the number as it is. -/
theorem countsHandOvers_of_reaches {f g : Fleet} (new : f.IsNew) (run : Reaches Informed f g) :
    g.toHistory.CountsHandOvers := by
  have both : g.IsDisciplined f.scene.participantOf ∧ g.toHistory.CountsHandOvers := by
    induction run with
    | refl => exact ⟨new.isDisciplined, new.countsHandOvers⟩
    | @tail g g' _ turn ih =>
      obtain ⟨m, hm, turn⟩ := turn
      obtain ⟨D, C⟩ := ih
      refine ⟨D.turn turn hm, ?_⟩
      rcases quiet_or_call turn with quiet | ⟨n, e, c, next, -, he, hr, same⟩
      · exact C.quiet quiet
      · rw [same]
        exact C.call D.sound (D.allows he hr) _ _
  exact both.2

/-- A member lease is created and claimed, changes hands when the claim has expired, is given up
and claimed again. -/
def changeOfHands : List Move :=
  [.begin 0 (.ensureMember "member")] ++ Move.goes 0 2 ++
    [.begin 0 (.renewByName "member" "a")] ++ Move.goes 1 4 ++ [.advance ⟨31000000000⟩] ++
    [.begin 1 (.renewByName "member" "b")] ++ Move.goes 2 4 ++
    [.begin 1 (.releaseLease "b" "member")] ++ Move.goes 3 2 ++
    [.begin 0 (.renewByName "member" "a")] ++ Move.goes 4 4

/-- That lease has changed hands once, and says so since. -/
theorem countsHandOvers_changeOfHands :
    ∃ g, disagreeing.run? (fun f m => f.Informed m) changeOfHands = some g ∧
      g.IsCreated ⟨"ns", "member"⟩ ∧ g.handOvers ⟨"ns", "member"⟩ = 1 ∧
      (g.versionsOf ⟨"ns", "member"⟩).map Lease.transitions = [1, 1, 1, 0, 0] ∧
      g.toHistory.CountsHandOvers := by
  have leads : disagreeing.leadsTo (fun f m => f.Informed m) changeOfHands (fun g =>
      g.origin = [] ∧ g.handOvers ⟨"ns", "member"⟩ = 1 ∧
        (g.versionsOf ⟨"ns", "member"⟩).map Lease.transitions = [1, 1, 1, 0, 0]) = true := by
    decide +kernel
  obtain ⟨g, run, property⟩ := exists_of_leadsTo leads
  obtain ⟨origin, once, versions⟩ := of_decide_eq_true property
  have reached : Reaches Informed disagreeing g :=
    reaches_of_run? (fun _ _ h => of_decide_eq_true h) run
  have created : g.IsCreated ⟨"ns", "member"⟩ := by
    rw [History.IsCreated, origin]
    exact fun _ hl => absurd hl List.not_mem_nil
  exact ⟨g, run, created, once, versions,
    countsHandOvers_of_reaches (isNew_ofParticipants _ _) reached⟩

end Fleet

end LeasePool
