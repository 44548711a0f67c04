import LeasePool.Proofs.Pool.Choosing

/-!
# A lease that is known

Who has held a member lease asks for it by name first, and scans the pool only if it is not to be
had. The known lease is claimed whenever it is available, also when the scan would have picked
another one. So the two ways to a lease agree when the known lease is missing, when somebody else
has it with a claim that is good, and when it is the one that the scan picks anyway. A claim that
has no end keeps nobody off, and then the two ways need not agree.
-/

namespace LeasePool

namespace Pool

open Attempt Scene

variable {p : Pool} {holder pool known : String} {t : Instant} {s : Scene} {i n : Nat}
  {failing : Failures}

/-- The known lease, if it is stored and available. -/
def known? (p : Pool) (holder known : String) (now : Instant) (s : MemoryStore) : Option Lease :=
  (s.lease? p.ns known).filter fun l => l.availableTo? holder now = some true

/-- How an attempt that knows a lease goes, if `plain` is how a scan would have gone. -/
structure Heeds (p : Pool) (holder pool known : String) (now : Instant) (s : Scene)
    (hinted plain : Scene × Progress (Except PoolError (Option Lease))) : Prop where
  /-- There is no lease of that name. -/
  missing : s.store.lease? p.ns known = none → hinted = plain
  /-- Somebody else has it, with a claim that has an end which has not come. -/
  guarded : ∀ l other, s.store.lease? p.ns known = some l → l.isHeldBy other = true →
    other ≠ holder → l.IsTimed → ¬ l.ExpiredBy now → hinted = plain
  /-- It is the first of those that the holder has. -/
  first : ∀ l, s.store.lease? p.ns known = some l →
    Lease.IsFirst (fun m => s.store.IsMember p.ns pool m ∧ m.isHeldBy holder = true) l →
    hinted = plain
  /-- The holder has it: it is renewed, whatever else there is, and nothing else happens. -/
  own : ∀ l, s.store.lease? p.ns known = some l → l.isHeldBy holder = true →
    ∃ new, l.IsRenewal holder now new ∧
      hinted =
        ({ s with store :=
          { s.store with
            leases := s.store.leases.insert ⟨p.ns, known⟩ new
            version := s.store.version + 1
            writes := s.store.writes + 1 } }, .ended (.ok (some new)))

/-! ## The known lease -/

/-- There is nothing to be had if the lease is missing, or if it is not available. -/
theorem known?_eq_none {store : MemoryStore}
    (h : ∀ l, store.lease? p.ns known = some l → l.availableTo? holder t = some false) :
    p.known? holder known t store = none := by
  apply Option.filter_eq_none_iff.2
  intro l stored
  simp [h l stored]

theorem known?_eq_some {store : MemoryStore} {l : Lease}
    (stored : store.lease? p.ns known = some l) (free : l.availableTo? holder t = some true) :
    p.known? holder known t store = some l := by
  rw [known?, stored]
  simp [free]

/-- A lease that was read is claimed if it is available. -/
def claimRead (holder : String) : Option Lease → Attempt (Option Lease)
  | none => return none
  | some lease => do
    let now ← ask .now
    if ← available lease holder now then renew lease holder else return none

theorem renewByName_eq :
    p.renewByName known holder = call (.getLease p.ns known) >>= claimRead holder := by
  rw [renewByName]
  congr 1
  funext found
  cases found <;> rfl

theorem acquireMemberHinted_eq :
    p.acquireMemberHinted holder pool known =
      p.renewByName known holder >>= fun renewed =>
        match renewed with
        | some renewed => return some renewed
        | none => p.acquireMember holder pool := rfl

section

variable (online : s.store.offline = false) (now : s.now? = some t) (sound : s.store.IsSound)
  (through : ∀ k, failing k = none)
  (ends : ∀ l ∈ s.store.leases.values, l.expiry ≠ .outOfRange)
include online now sound through ends

omit online now sound through in
/-- Whether a stored lease is available can be told. -/
theorem availableTo?_ne_none_of_stored {name : String} {l : Lease}
    (stored : s.store.lease? p.ns name = some l) : l.availableTo? holder t ≠ none := by
  intro puzzling
  apply ends l (List.mem_map_of_mem (Table.get?_eq_some_iff.1 stored))
  exact Lease.expiry_of_availableTo?_eq_none puzzling

/-- **The known lease is claimed** if it is to be had. -/
theorem course_renewByName :
    s.course i failing n (p.renewByName known holder).run =
      courseOfClaim s holder t (n + 1) (p.known? holder known t s.store) := by
  rw [renewByName_eq, course_call (through n) (answer_getLease online)]
  cases found : s.store.lease? p.ns known with
  | none =>
    rw [known?_eq_none (by simp [found])]
    rfl
  | some l =>
    have sure : l.availableTo? holder t ≠ none := availableTo?_ne_none_of_stored ends found
    obtain ⟨free, look⟩ := Option.ne_none_iff_exists'.1 sure
    simp only [claimRead]
    rw [course_now now, available, look, course_orCrash]
    cases free with
    | true =>
      have stored : s.store.leases.get? l.key = some l := by rwa [(sound _ _ found).1]
      rw [if_pos rfl, known?_eq_some found look, courseOfClaim]
      cases counts : l.admits holder with
      | true => exact course_renew online now stored counts (through _)
      | false => exact course_renew_of_not_admits now counts
    | false =>
      rw [known?_eq_none (by simp [found, look])]
      rfl

/-- Whoever knows a lease claims that one, or else the one that a scan picks. -/
theorem course_acquireMemberHinted :
    ∃ m, s.course i failing n (p.acquireMemberHinted holder pool known).run =
      courseOfClaim s holder t m
        ((p.known? holder known t s.store).or (choice? holder t (choices s.store p.ns pool))) := by
  have named : s.course i failing n (p.renewByName known holder).run = _ :=
    course_renewByName online now sound through ends
  have sure : ∀ l ∈ choices s.store p.ns pool, l.availableTo? holder t ≠ none := by
    intro l hl
    exact availableTo?_ne_none_of_stored ends ((mem_choices_iff sound).1 hl).1
  rw [acquireMemberHinted_eq]
  cases found : p.known? holder known t s.store with
  | some l =>
    rw [found, courseOfClaim] at named
    refine ⟨n + 1, ?_⟩
    rw [Option.some_or, courseOfClaim]
    cases counts : l.admits holder with
    | true =>
      rw [if_pos counts] at named
      rw [course_then_of_ok (congrArg Course.result? named), named]
      rfl
    | false =>
      rw [counts] at named
      rw [course_then_of_none (congrArg Course.result? named), named]
      rfl
  | none =>
    rw [found] at named
    rw [course_then_of_ok (congrArg Course.result? named), named, Option.none_or]
    exact ⟨n + 1 + 1, course_acquireMember online now sound through sure⟩

end

/-! ## The two ways to a lease -/

/-- **Whoever knows a lease** claims it if it is to be had, and the one that a scan picks
otherwise. -/
theorem run_acquireMemberHinted (inside : Option Role) (reachable : s.store.IsReachable)
    (quiet : s.faults = []) (online : s.store.offline = false) (now : s.now? = some t)
    (ends : ∀ l ∈ s.store.leases.values, l.expiry ≠ .outOfRange) :
    s.run i inside (p.acquireMemberHinted holder pool known).run =
      runOfClaim s i inside holder t
        ((p.known? holder known t s.store).or (choice? holder t (choices s.store p.ns pool))) := by
  have course : ∃ m, s.course i (fun _ => none) 0 (p.acquireMemberHinted holder pool known).run =
      courseOfClaim s holder t m _ :=
    course_acquireMemberHinted online now reachable.isSound (fun _ => rfl) ends
  obtain ⟨m, course⟩ := course
  exact run_of_courseOfClaim inside quiet asks_acquireMemberHinted course

/-- A scan picks the first lease of those that the holder has. -/
theorem choice?_eq_some_of_isFirst {l : Lease} (sound : s.store.IsSound)
    (first : Lease.IsFirst
      (fun m => s.store.IsMember p.ns pool m ∧ m.isHeldBy holder = true) l) :
    choice? holder t (choices s.store p.ns pool) = some l := by
  have some : (choice? holder t (choices s.store p.ns pool)).isSome = true :=
    (isSome_choice?_iff sound).2 ⟨l, first.1.1, .inl first.1.2⟩
  obtain ⟨m, chosen⟩ := Option.isSome_iff_exists.1 some
  have picked := (picks_of_choice? sound chosen).own ⟨l, first.1⟩
  rw [chosen, Lease.IsFirst.unique (fun _ h => h.1.1) picked first]

/-- A lease is available to whoever has it, expired or not. -/
theorem known?_of_isHeldBy {l : Lease}
    (ends : ∀ l ∈ s.store.leases.values, l.expiry ≠ .outOfRange)
    (stored : s.store.lease? p.ns known = some l) (held : l.isHeldBy holder = true) :
    p.known? holder known t s.store = some l := by
  apply known?_eq_some stored
  apply Lease.availableTo?_of_holder (Lease.isHeldBy_iff.1 held).1
  exact ends l (List.mem_map_of_mem (Table.get?_eq_some_iff.1 stored))

/-- **The two ways to a member lease**, by name and by a scan, in every store that can come about,
as long as no claim ends beyond the calendar and nobody disturbs them. They agree if the known
lease is missing, if somebody else has it and the end of the claim has not come, or if it is the
first lease of the holder. And whoever holds the known lease keeps it, expired or not, whatever
the scan would have picked. -/
theorem heeds_acquireMemberHinted (p : Pool) (holder pool known : String) (i : Nat)
    (inside : Option Role) {s : Scene} {t : Instant} (reachable : s.store.IsReachable)
    (quiet : s.faults = []) (online : s.store.offline = false) (now : s.now? = some t)
    (ends : ∀ l ∈ s.store.leases.values, l.expiry ≠ .outOfRange) :
    p.Heeds holder pool known t s
      (s.run i inside (p.acquireMemberHinted holder pool known).run)
      (s.run i inside (p.acquireMember holder pool).run) := by
  have sound := reachable.isSound
  rw [run_acquireMemberHinted inside reachable quiet online now ends,
    run_acquireMember inside reachable quiet online now ends]
  constructor
  · intro missing
    rw [known?_eq_none (by simp [missing]), Option.none_or]
  · intro l other stored held ne timed lasting
    have good : l.IsGood t :=
      ⟨lasting, ends l (List.mem_map_of_mem (Table.get?_eq_some_iff.1 stored))⟩
    rw [known?_eq_none, Option.none_or]
    intro m same
    obtain rfl := Option.some.inj (stored.symm.trans same)
    exact good.keeps_off timed held ne
  · intro l stored first
    rw [known?_of_isHeldBy ends stored first.1.2, choice?_eq_some_of_isFirst sound first]
    rfl
  · intro l stored held
    have key : l.key = ⟨p.ns, known⟩ := (sound _ _ stored).1
    have counts := Lease.admits_of_isHeldBy held
    rw [known?_of_isHeldBy ends stored held, ← key, Option.some_or, runOfClaim, courseOfClaim,
      if_pos counts]
    exact ⟨_, Lease.isRenewal_claim counts, rfl⟩

/-- In a crowd, somebody who holds `m-4` keeps it, and asks for the lease of another in vain. -/
theorem heeds_crowdedScene :
    Pool.Heeds ⟨"ns", "pool", ⟨30, 30⟩, .fixed 5⟩ "a" "pool" "m-4" ⟨100000000000⟩ crowdedScene
        (crowdedScene.run 0 none (Pool.acquireMemberHinted ⟨"ns", "pool", ⟨30, 30⟩, .fixed 5⟩
          "a" "pool" "m-4").run)
        (crowdedScene.run 0 none (Pool.acquireMember ⟨"ns", "pool", ⟨30, 30⟩, .fixed 5⟩
          "a" "pool").run) ∧
      (∃ l, crowdedScene.store.lease? "ns" "m-4" = some l ∧ l.isHeldBy "a" = true) ∧
      Pool.Heeds ⟨"ns", "pool", ⟨30, 30⟩, .fixed 5⟩ "a" "pool" "m-0" ⟨100000000000⟩ crowdedScene
        (crowdedScene.run 0 none (Pool.acquireMemberHinted ⟨"ns", "pool", ⟨30, 30⟩, .fixed 5⟩
          "a" "pool" "m-0").run)
        (crowdedScene.run 0 none (Pool.acquireMember ⟨"ns", "pool", ⟨30, 30⟩, .fixed 5⟩
          "a" "pool").run) ∧
      ∃ l, crowdedScene.store.lease? "ns" "m-0" = some l ∧ l.isHeldBy "b" = true ∧ l.IsTimed ∧
        ¬ l.ExpiredBy ⟨100000000000⟩ := by
  have reachable : crowdedScene.store.IsReachable :=
    .put (.put (.put (.put (.put .new _) _) _) _) _
  have ends : ∀ l ∈ crowdedScene.store.leases.values, l.expiry ≠ .outOfRange := by decide +kernel
  refine ⟨heeds_acquireMemberHinted _ "a" "pool" "m-4" 0 none reachable rfl rfl rfl ends, ?_,
    heeds_acquireMemberHinted _ "a" "pool" "m-0" 0 none reachable rfl rfl rfl ends, ?_⟩
  · have held : ∃ l ∈ crowdedScene.store.leases.values,
        crowdedScene.store.lease? "ns" "m-4" = some l ∧ l.isHeldBy "a" = true := by
      decide +kernel
    obtain ⟨l, -, found⟩ := held
    exact ⟨l, found⟩
  · have kept : ∃ l ∈ crowdedScene.store.leases.values,
        crowdedScene.store.lease? "ns" "m-0" = some l ∧ l.isHeldBy "b" = true ∧
        l.availableTo? "a" ⟨100000000000⟩ = some false := by
      decide +kernel
    obtain ⟨l, -, stored, held, taken⟩ := kept
    obtain ⟨timed, lasting, -⟩ := Lease.of_not_available taken
    exact ⟨l, stored, held, timed, lasting⟩

/-- The name of the lease with which an attempt has ended. -/
def claimedName? : Progress (Except PoolError (Option Lease)) → Option String
  | .ended (.ok (some l)) => some l.name
  | _ => none

/-- **A claim without an end keeps nobody off**: it never expires, yet whoever knows the lease
takes it from its holder, when a scan would have taken another one. -/
theorem hint_takes_unlimited :
    ∃ l, crowdedScene.store.IsReachable ∧ crowdedScene.store.offline = false ∧
      (∀ l ∈ crowdedScene.store.leases.values, l.expiry ≠ .outOfRange) ∧
      crowdedScene.store.lease? "ns" "m-3" = some l ∧ l.isHeldBy "b" = true ∧
      (∀ now, ¬ l.ExpiredBy now) ∧
      claimedName? (crowdedScene.run 0 none (Pool.acquireMemberHinted
        ⟨"ns", "pool", ⟨30, 30⟩, .fixed 5⟩ "c" "pool" "m-3").run).2 = some "m-3" ∧
      claimedName? (crowdedScene.run 0 none (Pool.acquireMember
        ⟨"ns", "pool", ⟨30, 30⟩, .fixed 5⟩ "c" "pool").run).2 = some "m-1" := by
  have reachable : crowdedScene.store.IsReachable :=
    .put (.put (.put (.put (.put .new _) _) _) _) _
  have ends : ∀ l ∈ crowdedScene.store.leases.values, l.expiry ≠ .outOfRange := by decide +kernel
  have endless : ∃ l ∈ crowdedScene.store.leases.values,
      crowdedScene.store.lease? "ns" "m-3" = some l ∧ l.isHeldBy "b" = true ∧
      l.claim.duration = none := by
    decide +kernel
  obtain ⟨l, -, stored, held, endless⟩ := endless
  refine ⟨l, reachable, rfl, ends, stored, held, ?_, ?_, ?_⟩
  · rintro now ⟨_, duration, -, hd, -⟩
    rw [endless] at hd
    contradiction
  · decide +kernel
  · -- The leases come in order of their names as it is, so the sort has nothing to do.
    have sorted : choices crowdedScene.store "ns" "pool" = (crowdedScene.store.leasesOf "ns").filter
        fun l => (memberSelector "pool").selects l.metadata.labels :=
      List.mergeSort_of_pairwise (by decide +kernel)
    rw [run_acquireMember none reachable rfl rfl rfl ends, sorted]
    decide +kernel

end Pool

end LeasePool
