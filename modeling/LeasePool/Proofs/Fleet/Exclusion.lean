import LeasePool.Proofs.Fleet.Closed

/-!
# Mutual exclusion

In a closed fleet nobody loses a lease before the claim has expired. What a pod has claimed last
and not given up is either still stored as it was, or it has expired; so a write that puts
somebody else in the pod's place comes after that, and of two claims on one lease by two pods one
has expired. The look at the clock, the look at the lease and the write are three different
moments, and the store may have changed in between; it is the version shown with the write that
ties them together.
-/

namespace LeasePool

/-- What the exchange has stored under a key, if it was a pod's. -/
def Exchange.writtenBy? (w : Exchange) (pod : String) (k : LeaseKey) : Option Lease :=
  w.stored?.filter fun l => w.pod = pod && l.key = k

/-- The lease as a pod has written it last in a log, if it holds the lease then. -/
def claimIn? (log : List Exchange) (pod : String) (k : LeaseKey) : Option Lease :=
  (log.findSome? fun w => w.writtenBy? pod k).filter fun l => l.isHeldBy pod

namespace History

variable {h h' : History} {pod : String} {k : LeaseKey} {c : Lease}

/-- What a pod has claimed last, unless it has given it up since. -/
def claimOf? (h : History) (pod : String) (k : LeaseKey) : Option Lease := claimIn? h.log pod k

/-- Without a write claims are the same. -/
theorem Quiet.claimOf?_eq (q : h.Quiet h') : h'.claimOf? pod k = h.claimOf? pod k := by
  rw [claimOf?, claimOf?, q.same]

/-- A claim is a lease that was stored, held by the pod. -/
theorem of_claimOf? (hc : h.claimOf? pod k = some c) :
    c ∈ h.leases ∧ c.key = k ∧ c.isHeldBy pod = true := by
  obtain ⟨found, held⟩ := Option.filter_eq_some_iff.1 hc
  obtain ⟨w, hw, hs⟩ := List.exists_of_findSome?_eq_some found
  obtain ⟨stored, own⟩ := Option.filter_eq_some_iff.1 hs
  have key : c.key = k := (by simpa using own : w.pod = pod ∧ c.key = k).2
  exact ⟨List.mem_append_left _ (List.mem_filterMap.2 ⟨w, hw, stored⟩), key, held⟩

/-- A call that stores nothing changes no claims. -/
theorem claimOf?_call_of_not_stored {i n : Nat} {call : StoreCall}
    (hs : call.stored? (h.reply call) = none) :
    (h.call i n call).claimOf? pod k = h.claimOf? pod k := by
  simp only [claimOf?, claimIn?, log_call, List.findSome?_cons, Exchange.writtenBy?,
    Exchange.stored?, hs, Option.filter_none]

/-- The claims after a call of a pod that stored a lease: the pod's own on that lease is what was
stored, and all others are as before. -/
theorem claimOf?_call {i n : Nat} {call : StoreCall} {l : Lease}
    (hs : call.stored? (h.reply call) = some l) :
    (h.call i n call).claimOf? pod k =
      if h.scene.podOf i = pod ∧ l.key = k then (if l.isHeldBy pod then some l else none)
      else h.claimOf? pod k := by
  simp only [claimOf?, claimIn?, log_call, List.findSome?_cons, Exchange.writtenBy?,
    Exchange.stored?, hs]
  by_cases own : h.scene.podOf i = pod ∧ l.key = k
  · simp [own, Option.filter]
  · have other : (decide (h.scene.podOf i = pod) && decide (l.key = k)) = false := by
      simpa using own
    simp [own, other, Option.filter]

end History

namespace Fleet

/-- Every claim that has not been given up is stored, or it has expired. -/
def IsExclusive (h : History) : Prop :=
  ∀ pod k c, h.claimOf? pod k = some c →
    h.scene.store.leases.get? k = some c ∨ c.ExpiredBy h.now

variable {f g : Fleet} {m : Move} {p : Pool} {who : Nat → Participant}

/-- While no lease is written, claims expire at most. -/
theorem IsExclusive.quiet {h h' : History} (X : IsExclusive h) (q : h.Quiet h') :
    IsExclusive h' := by
  intro pod k c hc
  rw [q.claimOf?_eq] at hc
  rw [q.leases]
  exact (X pod k c hc).imp_right fun expired => expired.mono q.now

/-- **Whoever overwrites the claim of a pod**, other than by claiming or by giving it up for the
pod, does so after it has expired. -/
theorem Writes.own_or_expired {c : Participant} {job : Job} {h : History} {call : StoreCall}
    {l b : Lease} {pod : String} (w : Writes p c job h call l)
    (conforms : ∃ role, p.Conforms role b) (hb : h.scene.store.leases.get? l.key = some b)
    (held : b.isHeldBy pod = true) :
    (c.pod = pod ∧ (l.isHeldBy pod = true ∨ call = .updateLease (b.edit .release))) ∨
      b.ExpiredBy h.now := by
  obtain ⟨role, conforms⟩ := conforms
  cases w with
  | @create role name owners _ _ free =>
    have hb : h.scene.store.leases.get? ⟨c.pool.ns, name⟩ = some b := hb
    rw [free] at hb
    contradiction
  | @claim a now _ _ _ stored past free =>
    have same : a = b := by
      rw [MemoryStore.key_stamped, Lease.key_edit, stored] at hb
      exact Option.some.inj hb
    subst same
    by_cases own : pod = c.pod
    · subst own
      refine .inl ⟨rfl, .inl ?_⟩
      exact Lease.isHeldBy_claim.2 ⟨rfl, (Lease.isHeldBy_iff.1 held).2⟩
    · rcases free with mine | ⟨seen, before, available⟩
      · exact absurd (Lease.eq_of_isHeldBy held mine) own
      · exact .inr ((Lease.expiredBy_of_available (conforms.isTimed held) held own available).mono
          before)
  | @release a _ _ _ stored mine =>
    have same : a = b := by
      rw [MemoryStore.key_stamped, Lease.key_edit, stored] at hb
      exact Option.some.inj hb
    subst same
    exact .inl ⟨Lease.eq_of_isHeldBy mine held, .inr rfl⟩

/-- **A call keeps claims exclusive.** -/
theorem IsClosed.exclusive_call (C : f.IsClosed p who) (X : IsExclusive f.toHistory) {n : Nat}
    {e : Errand} {c : StoreCall} {next : c.Reply → Operation Answer} (he : f.errands[n]? = some e)
    (hr : e.rest = .call c next) : IsExclusive (f.call e.replica n c) := by
  cases hs : c.stored? (f.reply c) with
  | none =>
    intro pod k b hb
    rw [History.claimOf?_call_of_not_stored hs] at hb
    rw [History.scene_call_of_not_stored hs]
    exact X pod k b hb
  | some l =>
    intro pod k b hb
    obtain ⟨a, hl, hw⟩ := History.store_call_of_stored (i := e.replica) (n := n) hs
    have key : l.key = a.key := by rw [hl]; rfl
    rw [hw, MemoryStore.get?_write, ← hl, ← key]
    rw [History.claimOf?_call hs] at hb
    by_cases own : f.scene.podOf e.replica = pod ∧ l.key = k
    · rw [if_pos own] at hb
      split at hb
      · exact .inl (by rw [if_pos own.2.symm]; exact hb)
      · contradiction
    · rw [if_neg own] at hb
      by_cases same : k = l.key
      · subst same
        rcases X pod l.key b hb with stored | expired
        · obtain ⟨known, -, held⟩ := History.of_claimOf? hb
          rcases (C.of_stored he hr hs).own_or_expired (C.conforms b known) stored held with
            ⟨mine, -⟩ | expired
          · refine absurd ⟨?_, rfl⟩ own
            rw [Scene.podOf, C.participant, mine]
          · exact .inr expired
        · exact .inr expired
      · rw [if_neg same]
        exact X pod k b hb

/-- Claims are exclusive in a closed fleet at all times. -/
theorem isExclusive_of_reaches {rule : Fleet → Move → Prop}
    (controlled : ∀ f m, rule f m → f.Controlled m) (fresh : f.IsFresh p)
    (run : Reaches rule f g) : IsExclusive g.toHistory := by
  induction run with
  | refl =>
    intro pod k c hc
    rw [History.claimOf?, fresh.log] at hc
    contradiction
  | @tail g g' run turn ih =>
    obtain ⟨m, -, turn⟩ := turn
    rcases quiet_or_call turn with quiet | ⟨n, e, c, next, -, he, hr, same⟩
    · exact ih.quiet quiet
    · rw [same]
      exact (isClosed_of_reaches controlled fresh run).exclusive_call ih he hr

/-- **Mutual exclusion.** In a closed fleet, whatever its controllers do in whatever order:
* if a write is stored after which a pod no longer holds a lease that it had claimed and not given
  up, then the pod itself has given the lease up, or the clock has passed the end of the claim;
* of two claims on one lease by two pods, neither of which has been given up, one has expired. -/
theorem exclusion_of_reaches (fresh : f.IsFresh p) (run : Reaches Controlled f g) :
    (∀ newer w older l pod c, g.log = newer ++ w :: older → w.stored? = some l →
      claimIn? older pod l.key = some c → l.isHeldBy pod = false →
      (w.pod = pod ∧ w.call = .updateLease (c.edit .release)) ∨ c.ExpiredBy w.time) ∧
    ∀ k pod qod c d, pod ≠ qod → g.claimOf? pod k = some c → g.claimOf? qod k = some d →
      c.ExpiredBy g.now ∨ d.ExpiredBy g.now := by
  refine ⟨?_, ?_⟩
  · induction run with
    | refl =>
      intro newer w older l pod c hlog
      rw [fresh.log] at hlog
      exact absurd hlog (by simp)
    | @tail g g' run turn ih =>
      obtain ⟨m, -, turn⟩ := turn
      rcases quiet_or_call turn with quiet | ⟨n, e, call, next, -, he, hr, same⟩
      · rw [quiet.same]
        exact ih
      · intro newer w older l pod c hlog hs hc away
        rw [same, History.log_call] at hlog
        rcases List.cons_eq_append_iff.1 hlog with ⟨rfl, new⟩ | ⟨newer', rfl, old⟩
        · injection new with hw ho
          subst hw ho
          have C := isClosed_of_reaches (fun _ _ h => h) fresh run
          rcases isExclusive_of_reaches (fun _ _ h => h) fresh run pod l.key c hc with
            stored | expired
          · obtain ⟨known, -, held⟩ := History.of_claimOf? hc
            rcases (C.of_stored he hr hs).own_or_expired (C.conforms c known) stored held with
              ⟨mine, kept | given⟩ | expired
            · rw [away] at kept
              contradiction
            · refine .inl ⟨?_, given⟩
              change g.scene.podOf e.replica = pod
              rw [Scene.podOf, C.participant, mine]
            · exact .inr expired
          · exact .inr expired
        · exact ih newer' w older l pod c old hs hc away
  · intro k pod qod c d other hc hd
    have X := isExclusive_of_reaches (fun _ _ h => h) fresh run
    rcases X pod k c hc with first | expired
    · rcases X qod k d hd with second | expired
      · have same : c = d := Option.some.inj (first.symm.trans second)
        subst same
        have hp := (History.of_claimOf? hc).2.2
        have hq := (History.of_claimOf? hd).2.2
        exact absurd (Lease.eq_of_isHeldBy hp hq) other
      · exact .inr expired
    · exact .inl expired

/-- One participant claims the member lease and is then not heard of until the claim has expired,
and another one takes its place. -/
def takeover : List Move :=
  [.begin 0 (.cycle .leader)] ++ Move.goes 0 10 ++ [.begin 0 (.cycle .member)] ++ Move.goes 1 8 ++
    [.advance (.ofMillis 31000), .begin 1 (.cycle .member)] ++ Move.goes 2 8

/-- Neither of the two has given its claim up, and that of the first has expired. -/
theorem exclusion_of_takeover :
    ∃ g c d, Reaches Controlled (small ⟨0⟩) g ∧ g.claimOf? "a" Pool.smallKey = some c ∧
      g.claimOf? "b" Pool.smallKey = some d ∧ (c.ExpiredBy g.now ∨ d.ExpiredBy g.now) := by
  have leads : (small ⟨0⟩).leadsTo (fun _ m => m.isOfController) takeover
      (fun g => (g.claimOf? "a" Pool.smallKey).isSome && (g.claimOf? "b" Pool.smallKey).isSome)
      = true := by decide +kernel
  obtain ⟨g, run, claims⟩ := exists_of_leadsTo leads
  obtain ⟨first, second⟩ := Bool.and_eq_true_iff.1 claims
  obtain ⟨c, hc⟩ := Option.isSome_iff_exists.1 first
  obtain ⟨d, hd⟩ := Option.isSome_iff_exists.1 second
  have reached : Reaches Controlled (small ⟨0⟩) g := reaches_of_run? (fun _ _ h => h) run
  exact ⟨g, c, d, reached, hc, hd,
    (exclusion_of_reaches (isFresh_small _) reached).2 _ "a" "b" c d (by decide) hc hd⟩

end Fleet

end LeasePool
