import LeasePool.Proofs.Pool.Tending
import LeasePool.Proofs.Store.Twins

/-!
# Which member lease is claimed

A scan of the member leases of a pool that nobody disturbs. Whoever holds member leases renews the
first of them by name, and whoever holds none claims the first by name that is available. There is
such a lease exactly if the scan ends with one. The claim is the only thing that happens, and
without one nothing happens at all. But there is no end to a scan that would have to take a lease
from its holder and cannot count that.
-/

namespace LeasePool

namespace MemoryStore

/-- A store that comes about by changes from outside and by requests. -/
inductive IsReachable : MemoryStore → Prop
  | new : IsReachable {}
  | put {s : MemoryStore} (before : IsReachable s) (l : Lease) : IsReachable (s.put l)
  | remove {s : MemoryStore} (before : IsReachable s) (ns name : String) :
    IsReachable (s.remove ns name)
  | putWorkload {s : MemoryStore} (before : IsReachable s) (w : Workload) :
    IsReachable (s.putWorkload w)
  | removeWorkload {s : MemoryStore} (before : IsReachable s) (kind : WorkloadKind)
    (ns name : String) : IsReachable (s.removeWorkload kind ns name)
  | setReplicas {s : MemoryStore} (before : IsReachable s) (ns deployment : String)
    (replicas : Int32) : IsReachable (s.setReplicas ns deployment replicas)
  | switch {s : MemoryStore} (before : IsReachable s) (offline : Bool) :
    IsReachable { s with offline }
  | answer {s : MemoryStore} (before : IsReachable s) (c : StoreCall) :
    IsReachable (s.answer c).1

/-- In every store that can come about, leases lie under their own keys, with versions that were
given out. -/
theorem IsReachable.isSound {s : MemoryStore} (h : s.IsReachable) : s.IsSound := by
  induction h with
  | new => exact isSound_of_empty rfl
  | put _ l ih => exact ih.put l
  | remove _ ns name ih => exact ih.remove ns name
  | putWorkload _ _ ih | removeWorkload _ _ _ _ ih | setReplicas _ _ _ _ ih | switch _ _ ih =>
    exact ih
  | answer _ c ih => exact ih.answer c

/-- A lease of a namespace that a scan of a pool looks at. -/
def IsMember (s : MemoryStore) (ns pool : String) (l : Lease) : Prop :=
  s.lease? ns l.name = some l ∧ (memberSelector pool).selects l.metadata.labels = true

end MemoryStore

namespace Lease

/-- The first lease by name of those of which `P` holds. -/
def IsFirst (P : Lease → Prop) (l : Lease) : Prop := P l ∧ ∀ m, P m → l.name ≤ m.name

/-- Of the leases that are stored under their names in a namespace, only one is the first. -/
theorem IsFirst.unique {P : Lease → Prop} {s : MemoryStore} {ns : String} {l m : Lease}
    (stored : ∀ l, P l → s.lease? ns l.name = some l) (hl : IsFirst P l) (hm : IsFirst P m) :
    l = m := by
  have name : l.name = m.name := String.le_antisymm (hl.2 m hm.1) (hm.2 l hl.1)
  have here := stored l hl.1
  rw [name, stored m hm.1] at here
  exact (Option.some.inj here).symm

/-- What a claim makes of a lease. If somebody else held the lease, then it is acquired now, and
the hand-over is counted; otherwise it was acquired when it was before, or now if that is not
known. Nothing else changes, but for the version. -/
structure IsRenewal (holder : String) (now : Instant) (old new : Lease) : Prop where
  held : new.claim.holder = some holder
  renewed : new.claim.renewed = some (.utc now)
  taken : ∀ p, old.holder? = some p → p ≠ holder →
    new.claim.acquired = some (.utc now) ∧
      new.claim.transitions = some (old.claim.transitions.getD 0 + 1)
  kept : (∀ p, old.holder? = some p → p = holder) →
    new.claim.acquired = some (old.claim.acquired.getD (.utc now)) ∧
      new.claim.transitions = old.claim.transitions
  duration : new.claim.duration = old.claim.duration
  extra : new.claim.extra = old.claim.extra
  metadata : new.metadata = { old.metadata with version := new.metadata.version }

theorem isRenewal_claim {l : Lease} {holder : String} {now : Instant} {s : MemoryStore}
    (counts : l.admits holder = true) :
    l.IsRenewal holder now (s.stamped (l.edit (.claim holder (.utc now)))) := by
  by_cases taken : Claim.isTakenOverBy holder l.holder? = true
  · have counted := (claim_transitions_of_taken (t := .utc now) counts taken).2
    have edit : l.edit (.claim holder (.utc now)) = { l with claim := _ } :=
      congrArg (fun c => { l with claim := c }) (if_pos taken)
    obtain ⟨q, held, other⟩ := (Option.any_eq_true _ _).1 taken
    rw [edit] at counted ⊢
    refine ⟨rfl, rfl, fun _ _ _ => ⟨rfl, counted⟩, ?_, rfl, rfl, rfl⟩
    intro own
    rw [own q held] at other
    simp at other
  · have edit : l.edit (.claim holder (.utc now)) = { l with claim := _ } :=
      congrArg (fun c => { l with claim := c }) (if_neg taken)
    rw [edit]
    refine ⟨rfl, rfl, ?_, fun _ => ⟨rfl, rfl⟩, rfl, rfl, rfl⟩
    intro p held other
    simp [Claim.isTakenOverBy, held, other] at taken

/-- In a list in order of names, the first lease that passes a test is the first by name. -/
theorem isFirst_of_find? {ls : List Lease} {test : Lease → Bool} {l : Lease}
    (sorted : ls.Pairwise fun a b => a.name ≤ b.name) (found : ls.find? test = some l) :
    IsFirst (fun m => m ∈ ls ∧ test m = true) l := by
  obtain ⟨passes, before, after, rfl, fail⟩ := List.find?_eq_some_iff_append.1 found
  refine ⟨⟨by simp, passes⟩, ?_⟩
  rintro m ⟨hm, passes⟩
  -- A lease that passes does not come before.
  rcases List.mem_append.1 hm with early | late
  · have fails := fail m early
    rw [passes] at fails
    contradiction
  · rcases List.mem_cons.1 late with rfl | late
    · exact String.le_refl _
    · exact (List.pairwise_cons.1 (List.pairwise_append.1 sorted).2.1).1 m late

end Lease

namespace Pool

open Attempt Scene

/-- The right lease for a holder: the first by name of those that it holds, or else of those that
are available to it. -/
structure Picks (p : Pool) (holder pool : String) (now : Instant) (s : MemoryStore) (l : Lease) :
    Prop where
  own : (∃ m, s.IsMember p.ns pool m ∧ m.isHeldBy holder = true) →
    Lease.IsFirst (fun m => s.IsMember p.ns pool m ∧ m.isHeldBy holder = true) l
  other : (¬ ∃ m, s.IsMember p.ns pool m ∧ m.isHeldBy holder = true) →
    Lease.IsFirst (fun m => s.IsMember p.ns pool m ∧ m.availableTo? holder now = some true) l

/-- How a scan goes from one scene to another. -/
structure Scans (p : Pool) (holder pool : String) (now : Instant) (s s' : Scene)
    (l? : Option Lease) : Prop where
  /-- There is a lease exactly if there is a right one. -/
  isSome_iff : l?.isSome = true ↔ ∃ m, s.store.IsMember p.ns pool m ∧
    (m.isHeldBy holder = true ∨ m.availableTo? holder now = some true)
  /-- The lease is the right one, renewed, with a version that was never given out before. It is
  stored instead of the one that was there, by one write, and nothing else happens. -/
  claims : ∀ new, l? = some new → ∃ old, p.Picks holder pool now s.store old ∧
    old.IsRenewal holder now new ∧
    (∀ n ≤ s.store.version, new.metadata.version ≠ some (MemoryStore.versionText n)) ∧
    s' =
      { s with store :=
        { s.store with
          leases := s.store.leases.insert old.key new
          version := s.store.version + 1
          writes := s.store.writes + 1 } }
  /-- Without a lease nothing happens. -/
  idle : l? = none → s' = s

variable {p : Pool} {holder pool : String} {t : Instant} {s : Scene} {i n : Nat}
  {failing : Failures} {ls : List Lease}

/-- Claims one of the leases that were found, in order of their names. -/
def claimAmong (holder : String) (ls : List Lease) : Attempt (Option Lease) := do
  match ls with
  | [] => return none
  | leases =>
    match ← renewFirst holder (leases.filter fun l => l.isHeldBy holder) with
    | some renewed => return some renewed
    | none =>
      let now ← ask .now
      claimFirst holder now leases

/-- A scan first looks for leases, and claims one of them then. -/
theorem acquireMember_eq :
    p.acquireMember holder pool =
      call (.listLeases p.ns (memberSelector pool)) >>= fun found =>
        claimAmong holder (byName found) := rfl

/-- The lease that a scan claims. -/
def choice? (holder : String) (now : Instant) (ls : List Lease) : Option Lease :=
  (ls.find? fun l => l.isHeldBy holder).or
    (ls.find? fun l => l.availableTo? holder now = some true)

/-- How a claim goes on a lease that is stored. Without a lease nothing is claimed. -/
def courseOfClaim (s : Scene) (holder : String) (now : Instant) (n : Nat) :
    Option Lease → Course (Except PoolError (Option Lease))
  | none => ⟨s, n, some (.ok none)⟩
  | some l =>
    if l.admits holder then
      ⟨{ s with store := s.store.write (l.edit (.claim holder (.utc now))) }, n + 1,
        some (.ok (some (s.store.stamped (l.edit (.claim holder (.utc now))))))⟩
    else ⟨s, n, none⟩

section

variable (online : s.store.offline = false) (now : s.now? = some t)
  (stored : ∀ l ∈ ls, s.store.leases.get? l.key = some l) (through : ∀ k, failing k = none)
include online now stored through

/-- A lease of a list is renewed, and then there is nothing to do with the others. -/
theorem course_renew_then {l : Lease} (hl : l ∈ ls) {rest : Attempt (Option Lease)} :
    s.course i failing n (do
      match ← renew l holder with
      | some renewed => return some renewed
      | none => rest : Attempt (Option Lease)).run = courseOfClaim s holder t n (some l) := by
  cases counts : l.admits holder with
  | true =>
    have renewed : s.course i failing n (renew l holder).run = _ :=
      course_renew online now (stored l hl) counts (through n)
    rw [course_then_of_ok (congrArg Course.result? renewed), renewed, courseOfClaim, if_pos counts]
    rfl
  | false =>
    have stuck : s.course i failing n (renew l holder).run = _ :=
      course_renew_of_not_admits now counts
    rw [course_then_of_none (congrArg Course.result? stuck), stuck, courseOfClaim, counts]
    rfl

/-- Of the leases of a list, the first one is renewed. -/
theorem course_renewFirst :
    s.course i failing n (renewFirst holder ls).run = courseOfClaim s holder t n ls.head? := by
  cases ls with
  | nil => rfl
  | cons l ls => exact course_renew_then online now stored through List.mem_cons_self

/-- Of the leases of a list, the first one that is available is claimed. -/
theorem course_claimFirst (sure : ∀ l ∈ ls, l.availableTo? holder t ≠ none) :
    s.course i failing n (claimFirst holder t ls).run =
      courseOfClaim s holder t n (ls.find? fun l => l.availableTo? holder t = some true) := by
  induction ls with
  | nil => rfl
  | cons l ls ih =>
    obtain ⟨free, look⟩ := Option.ne_none_iff_exists'.1 (sure l List.mem_cons_self)
    rw [claimFirst, available, look, course_orCrash]
    cases free with
    | true =>
      rw [if_pos rfl, List.find?_cons_of_pos (by simp [look])]
      exact course_renew_then online now stored through List.mem_cons_self
    | false =>
      rw [List.find?_cons_of_neg (by simp [look])]
      exact ih (fun m hm => stored m (List.mem_cons_of_mem _ hm))
        fun m hm => sure m (List.mem_cons_of_mem _ hm)

/-- Of the leases of a list, the first one that the holder has is renewed, or else the first one
that is available is claimed. -/
theorem course_claimAmong (sure : ∀ l ∈ ls, l.availableTo? holder t ≠ none) :
    s.course i failing n (claimAmong holder ls).run =
      courseOfClaim s holder t n (choice? holder t ls) := by
  cases ls with
  | nil => rfl
  | cons first rest =>
    have renewed : s.course i failing n
        (renewFirst holder ((first :: rest).filter fun l => l.isHeldBy holder)).run = _ :=
      course_renewFirst online now (fun l hl => stored l (List.mem_filter.1 hl).1) through
    rw [List.head?_filter] at renewed
    simp only [claimAmong, choice?]
    cases own : (first :: rest).find? fun l => l.isHeldBy holder with
    | some held =>
      -- Whoever holds a lease takes it from nobody.
      have counts : held.admits holder = true :=
        Lease.admits_of_isHeldBy (List.find?_some (p := fun l : Lease => l.isHeldBy holder) own)
      rw [own, courseOfClaim, if_pos counts] at renewed
      rw [course_then_of_ok (congrArg Course.result? renewed), renewed, Option.some_or,
        courseOfClaim, if_pos counts]
      rfl
    | none =>
      rw [own] at renewed
      rw [course_then_of_ok (congrArg Course.result? renewed), renewed]
      exact (course_now now).trans (course_claimFirst online now stored through sure)

end

/-! ## The leases that a scan looks at -/

theorem mem_choices_iff {s : MemoryStore} (sound : s.IsSound) {ns : String} {l : Lease} :
    l ∈ choices s ns pool ↔ s.IsMember ns pool l := by
  rw [choices, byName, List.mem_mergeSort, List.mem_filter,
    MemoryStore.mem_leasesOf_iff fun k l stored => (sound k l stored).1]
  constructor
  · rintro ⟨⟨stored, rfl⟩, selected⟩
    exact ⟨stored, selected⟩
  · rintro ⟨stored, selected⟩
    have key : l.key = ⟨ns, l.name⟩ := (sound _ _ stored).1
    exact ⟨⟨by rw [key]; exact stored, congrArg LeaseKey.ns key⟩, selected⟩

theorem pairwise_choices {s : MemoryStore} {ns : String} :
    (choices s ns pool).Pairwise fun a b => a.name ≤ b.name := by
  have sorted := @List.pairwise_mergeSort Lease (fun a b => decide (a.name ≤ b.name))
    (by simpa using fun a b c => String.le_trans) (by simpa using fun a b => String.le_total _ _)
    ((s.leasesOf ns).filter fun l => (memberSelector pool).selects l.metadata.labels)
  exact sorted.imp of_decide_eq_true

/-- The lease that a scan claims is the right one... -/
theorem picks_of_choice? (sound : s.store.IsSound) {l : Lease}
    (chosen : choice? holder t (choices s.store p.ns pool) = some l) :
    p.Picks holder pool t s.store l := by
  have member : ∀ m, m ∈ choices s.store p.ns pool ↔ s.store.IsMember p.ns pool m :=
    fun m => mem_choices_iff sound
  rw [choice?] at chosen
  cases own : (choices s.store p.ns pool).find? fun l => l.isHeldBy holder with
  | some held =>
    rw [own, Option.some_or] at chosen
    obtain rfl := Option.some.inj chosen
    have first := Lease.isFirst_of_find? pairwise_choices own
    simp only [member] at first
    exact ⟨fun _ => first, fun none => absurd ⟨_, first.1⟩ none⟩
  | none =>
    rw [own, Option.none_or] at chosen
    have first := Lease.isFirst_of_find? pairwise_choices chosen
    simp only [member, decide_eq_true_eq] at first
    refine ⟨?_, fun _ => first⟩
    rintro ⟨m, hm, held⟩
    exact absurd held (List.find?_eq_none.1 own m ((member m).2 hm))

/-- ... if there is one. -/
theorem isSome_choice?_iff (sound : s.store.IsSound) :
    (choice? holder t (choices s.store p.ns pool)).isSome = true ↔
      ∃ m, s.store.IsMember p.ns pool m ∧
        (m.isHeldBy holder = true ∨ m.availableTo? holder t = some true) := by
  simp only [choice?, Option.isSome_or, Bool.or_eq_true, List.find?_isSome, mem_choices_iff sound,
    decide_eq_true_eq, ← exists_or, ← and_or_left]

/-! ## Scans -/

/-- **A scan that nobody disturbs** claims the lease that is to be claimed. -/
theorem course_acquireMember (online : s.store.offline = false) (now : s.now? = some t)
    (sound : s.store.IsSound) (through : ∀ k, failing k = none)
    (sure : ∀ l ∈ choices s.store p.ns pool, l.availableTo? holder t ≠ none) :
    s.course i failing n (p.acquireMember holder pool).run =
      courseOfClaim s holder t (n + 1) (choice? holder t (choices s.store p.ns pool)) := by
  have listed : s.store.answer (.listLeases p.ns (memberSelector pool)) =
      (s.store, .ok ((s.store.leasesOf p.ns).filter fun l =>
        (memberSelector pool).selects l.metadata.labels)) := by
    simp [MemoryStore.answer, online]
  have stored : ∀ l ∈ choices s.store p.ns pool, s.store.leases.get? l.key = some l := by
    intro l hl
    have member := ((mem_choices_iff sound).1 hl).1
    rwa [(sound _ _ member).1]
  rw [acquireMember_eq, course_call (through n) listed]
  exact course_claimAmong online now stored through sure

/-- How a claim ends on a lease that is stored, if there is one. -/
def runOfClaim (s : Scene) (i : Nat) (inside : Option Role) (holder : String) (now : Instant)
    (l? : Option Lease) : Scene × Progress (Except PoolError (Option Lease)) :=
  match courseOfClaim s holder now 0 l? with
  | ⟨t, _, some result⟩ => (t, .ended result)
  | ⟨t, _, none⟩ => (t.abandon i inside, .crashed)

/-- What goes like a claim ends like one, whatever the number of its calls. -/
theorem run_of_courseOfClaim {x : Attempt (Option Lease)} {l? : Option Lease}
    (inside : Option Role) (quiet : s.faults = []) (asks : x.run.Asks Query.IsOfPool)
    (course : s.course i (fun _ => none) 0 x.run = courseOfClaim s holder t n l?) :
    s.run i inside x.run = runOfClaim s i inside holder t l? := by
  rw [run_of_course (n := 0) inside quiet (fun _ => rfl) (asks.mono fun _ h => h.isOfWork), course]
  cases l? with
  | none => rfl
  | some l => cases counts : l.admits holder <;> simp [runOfClaim, courseOfClaim, counts]

/-- Every scan that nobody disturbs ends like a claim on the lease that is to be claimed. -/
theorem run_acquireMember (inside : Option Role) (reachable : s.store.IsReachable)
    (quiet : s.faults = []) (online : s.store.offline = false) (now : s.now? = some t)
    (ends : ∀ l ∈ s.store.leases.values, l.expiry ≠ .outOfRange) :
    s.run i inside (p.acquireMember holder pool).run =
      runOfClaim s i inside holder t (choice? holder t (choices s.store p.ns pool)) := by
  have sound := reachable.isSound
  refine run_of_courseOfClaim (n := 0 + 1) inside quiet asks_acquireMember ?_
  apply course_acquireMember online now sound (fun _ => rfl)
  intro l hl puzzling
  have stored := ((mem_choices_iff sound).1 hl).1
  exact ends l (List.mem_map_of_mem (Table.get?_eq_some_iff.1 stored))
    (Lease.expiry_of_availableTo?_eq_none puzzling)

/-- There is one right lease at most... -/
theorem Picks.unique {store : MemoryStore} {l m : Lease} (hl : p.Picks holder pool t store l)
    (hm : p.Picks holder pool t store m) : l = m := by
  by_cases own : ∃ m, store.IsMember p.ns pool m ∧ m.isHeldBy holder = true
  · exact Lease.IsFirst.unique (fun _ h => h.1.1) (hl.own own) (hm.own own)
  · exact Lease.IsFirst.unique (fun _ h => h.1.1) (hl.other own) (hm.other own)

/-- ... and there is none unless there is one to be had. -/
theorem Picks.isMember {store : MemoryStore} {l : Lease} (H : p.Picks holder pool t store l) :
    store.IsMember p.ns pool l ∧
      (l.isHeldBy holder = true ∨ l.availableTo? holder t = some true) := by
  by_cases own : ∃ m, store.IsMember p.ns pool m ∧ m.isHeldBy holder = true
  · obtain ⟨⟨member, held⟩, -⟩ := H.own own
    exact ⟨member, .inl held⟩
  · obtain ⟨⟨member, free⟩, -⟩ := H.other own
    exact ⟨member, .inr free⟩

/-- **A scan picks the right lease**, in every store that can come about and whatever is in its
leases, as long as no claim ends beyond the calendar and nobody disturbs it. Unless the right lease
is to be taken from somebody and that cannot be counted, the scan ends with a lease exactly if its
caller holds a member lease or one is available, and the lease is the first by name of those that
the caller holds, or else of those that are available. It is renewed by one write, and nothing else
happens. A change of hands that cannot be counted makes the scan crash, and nothing is written. -/
theorem scans_acquireMember (p : Pool) (holder pool : String) (i : Nat) (inside : Option Role)
    {s : Scene} {t : Instant} (reachable : s.store.IsReachable) (quiet : s.faults = [])
    (online : s.store.offline = false) (now : s.now? = some t)
    (ends : ∀ l ∈ s.store.leases.values, l.expiry ≠ .outOfRange) :
    ((∀ l, p.Picks holder pool t s.store l → l.admits holder = true) →
      ∃ s' l?, s.run i inside (p.acquireMember holder pool).run = (s', .ended (.ok l?)) ∧
        p.Scans holder pool t s s' l?) ∧
    ((∃ l, p.Picks holder pool t s.store l ∧ l.admits holder = false) →
      s.run i inside (p.acquireMember holder pool).run = (s.abandon i inside, .crashed)) := by
  have sound := reachable.isSound
  have some_iff : (choice? holder t (choices s.store p.ns pool)).isSome = true ↔ _ :=
    isSome_choice?_iff sound
  rw [run_acquireMember inside reachable quiet online now ends]
  cases chosen : choice? holder t (choices s.store p.ns pool) with
  | none =>
    rw [chosen] at some_iff
    constructor
    · intro _
      exact ⟨s, none, rfl, some_iff, fun _ hn => (Option.some_ne_none _ hn.symm).elim, fun _ => rfl⟩
    · rintro ⟨l, right, -⟩
      have there := some_iff.2 ⟨l, right.isMember⟩
      contradiction
  | some old =>
    rw [chosen] at some_iff
    have picked := picks_of_choice? sound chosen
    constructor
    · intro counts
      rw [runOfClaim, courseOfClaim, if_pos (counts old picked)]
      refine ⟨_, _, rfl, some_iff, ?_, fun hn => (Option.some_ne_none _ hn).elim⟩
      intro new same
      obtain rfl := Option.some.inj same
      refine ⟨old, picked, Lease.isRenewal_claim (counts old picked), ?_, rfl⟩
      intro n given again
      have := MemoryStore.versionText_injective (Option.some.inj again)
      omega
    · rintro ⟨l, right, uncounted⟩
      obtain rfl := picked.unique right
      rw [runOfClaim, courseOfClaim, uncounted]
      rfl

/-- A member lease of a pool, with a claim. -/
def memberLease (name : String) (claim : Claim) : Lease :=
  { metadata := { name, ns := "ns", labels := Role.member.labels "pool" }, claim }

/-- A claim that was renewed at a second, if ever. -/
def claimOf (holder : String) (renewed : Option Int) (duration : Option Int32) : Claim :=
  { holder := some holder, renewed := renewed.map fun s => .utc ⟨s * 1000000000⟩, duration }

/-- Member leases of all kinds, as seen at second 100: claims of others that are good, have
expired or never expire, a blank one, and one of `a`. -/
def crowdedStore : MemoryStore :=
  MemoryStore.put (.put (.put (.put (.put {}
    (memberLease "m-0" (claimOf "b" (some 90) (some 30))))
    (memberLease "m-1" (claimOf "b" (some 10) (some 30))))
    (memberLease "m-2" (claimOf " " none none)))
    (memberLease "m-3" (claimOf "b" (some 10) none)))
    (memberLease "m-4" (claimOf "a" (some 90) (some 30)))

/-- That store in a scene in which nobody else does anything. -/
def crowdedScene : Scene := { store := crowdedStore, clock := ⟨.utc ⟨100000000000⟩⟩ }

/-- In that scene there is a lease for a newcomer. -/
theorem scans_crowdedScene :
    ∃ s' l?, crowdedScene.run 0 none (Pool.acquireMember ⟨"ns", "pool", ⟨30, 30⟩, .fixed 5⟩
        "c" "pool").run = (s', .ended (.ok l?)) ∧ l?.isSome = true ∧
      Pool.Scans ⟨"ns", "pool", ⟨30, 30⟩, .fixed 5⟩ "c" "pool" ⟨100000000000⟩ crowdedScene s'
        l? := by
  have reachable : crowdedScene.store.IsReachable :=
    .put (.put (.put (.put (.put .new _) _) _) _) _
  have ends : ∀ l ∈ crowdedScene.store.leases.values, l.expiry ≠ .outOfRange := by decide +kernel
  have counts : ∀ l ∈ crowdedScene.store.leases.values, l.admits "c" = true := by decide +kernel
  obtain ⟨s', l?, run, scans⟩ :=
    (scans_acquireMember ⟨"ns", "pool", ⟨30, 30⟩, .fixed 5⟩ "c" "pool" 0 none reachable rfl rfl rfl
      ends).1 fun l right => counts l
        (List.mem_map_of_mem (Table.get?_eq_some_iff.1 right.isMember.1.1))
  have expired : ∃ m ∈ crowdedScene.store.leases.values,
      crowdedScene.store.lease? "ns" m.name = some m ∧
      (memberSelector "pool").selects m.metadata.labels = true ∧
      m.availableTo? "c" ⟨100000000000⟩ = some true := by decide +kernel
  obtain ⟨m, -, stored, selected, free⟩ := expired
  exact ⟨s', l?, run, scans.isSome_iff.2 ⟨m, ⟨stored, selected⟩, .inr free⟩, scans⟩

/-- A store with a member lease whose holder has let it expire, and which has gone from one holder
to another as often as can be counted. -/
def wornOutStore : MemoryStore :=
  MemoryStore.put {}
    (memberLease "m-0" { claimOf "b" (some 10) (some 30) with transitions := some Int32.maxValue })

/-- That store in a scene in which nobody else does anything. -/
def wornOutScene : Scene := { store := wornOutStore, clock := ⟨.utc ⟨100000000000⟩⟩ }

/-- **A scan can crash over the only lease that is available.** -/
theorem scan_crashes_uncounted :
    wornOutScene.store.IsReachable ∧
      (∀ l ∈ wornOutScene.store.leases.values, l.expiry ≠ .outOfRange) ∧
      (∃ l, wornOutScene.store.IsMember "ns" "pool" l ∧
        l.availableTo? "c" ⟨100000000000⟩ = some true) ∧
      (wornOutScene.run 0 none (Pool.acquireMember ⟨"ns", "pool", ⟨30, 30⟩, .fixed 5⟩
        "c" "pool").run).2 = .crashed := by
  have reachable : wornOutScene.store.IsReachable := .put .new _
  have ends : ∀ l ∈ wornOutScene.store.leases.values, l.expiry ≠ .outOfRange := by decide +kernel
  have expired : ∃ l ∈ wornOutScene.store.leases.values,
      wornOutScene.store.lease? "ns" l.name = some l ∧
      (memberSelector "pool").selects l.metadata.labels = true ∧
      l.availableTo? "c" ⟨100000000000⟩ = some true := by decide +kernel
  obtain ⟨l, -, stored, selected, free⟩ := expired
  have sorted : choices wornOutScene.store "ns" "pool" = (wornOutScene.store.leasesOf "ns").filter
      fun l => (memberSelector "pool").selects l.metadata.labels := List.mergeSort_singleton _
  refine ⟨reachable, ends, ⟨l, ⟨stored, selected⟩, free⟩, ?_⟩
  rw [run_acquireMember none reachable rfl rfl rfl ends, sorted]
  rfl

end Pool

end LeasePool
