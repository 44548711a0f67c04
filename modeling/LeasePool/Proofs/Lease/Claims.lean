import LeasePool.Lease.Edit
import LeasePool.Store.Memory

/-!
# Claims and edits

What each edit does to the holder of a lease, and when somebody may take a lease from its holder:
not before the claim has expired.

## Main definitions

* `Lease.ExpiredBy`: the last renewal is longer ago than it is good for.
* `Lease.IsTimed`: the lease has what it takes to expire.
* `Lease.IsGood`: the claim has not expired, and it has an end that can be told.

## Main statements

* `Lease.expiredBy_of_available`: a lease that is available to somebody else has expired.
* `Lease.IsGood.keeps_off`: while a claim is good the lease is not available to anybody else.
-/

namespace LeasePool

/-- A counter that is not at its end goes up by one. -/
theorem toInt_succ {n : Int32} (h : n ≠ Int32.maxValue) : (n + 1).toInt = n.toInt + 1 := by
  have least := Int32.le_toInt n
  have greatest := Int32.toInt_lt n
  have other : n.toInt ≠ 2147483647 := fun same => h (Int32.toInt_inj.1 same)
  have lower : -2147483648 ≤ n.toInt + 1 := by omega
  have upper : n.toInt + 1 < 2147483648 := by omega
  rw [Int32.toInt_add]
  exact Int.bmod_eq_of_le lower upper

namespace Lease

variable {l : Lease}

@[simp] theorem key_edit {e : Edit} : (l.edit e).key = l.key := by cases e <;> rfl
@[simp] theorem name_edit {e : Edit} : (l.edit e).name = l.name := by cases e <;> rfl
@[simp] theorem version_edit {e : Edit} : (l.edit e).metadata.version = l.metadata.version := by
  cases e <;> rfl

/-! ## Holders -/

theorem isHeldBy_iff {p : String} :
    l.isHeldBy p = true ↔ l.claim.holder = some p ∧ Text.isBlankText p = false := by
  simp only [isHeldBy, holder?, decide_eq_true_eq, Option.filter_eq_some_iff,
    Bool.not_eq_eq_eq_not, Bool.not_true]

/-- A lease has one holder at most. -/
theorem eq_of_isHeldBy {p q : String} (hp : l.isHeldBy p = true) (hq : l.isHeldBy q = true) :
    p = q := by
  have same := (isHeldBy_iff.1 hp).1.symm.trans (isHeldBy_iff.1 hq).1
  exact Option.some.inj same

@[simp] theorem claim_holder_claim {p : String} {t : Stamp} :
    (l.edit (.claim p t)).claim.holder = some p := by
  simp only [edit, Claim.renewedBy]
  split <;> rfl

@[simp] theorem claim_renewed_claim {p : String} {t : Stamp} :
    (l.edit (.claim p t)).claim.renewed = some t := by
  simp only [edit, Claim.renewedBy]
  split <;> rfl

@[simp] theorem claim_duration_claim {p : String} {t : Stamp} :
    (l.edit (.claim p t)).claim.duration = l.claim.duration := by
  simp only [edit, Claim.renewedBy]
  split <;> rfl

/-- Whoever claims a lease holds it, if the name is not blank. -/
theorem isHeldBy_claim {p q : String} {t : Stamp} :
    (l.edit (.claim p t)).isHeldBy q = true ↔ p = q ∧ Text.isBlankText p = false := by
  rw [isHeldBy_iff, claim_holder_claim, Option.some.injEq]
  constructor <;> (rintro ⟨rfl, h⟩; exact ⟨rfl, h⟩)

/-- Nobody takes a lease over from himself, so there is nothing to be counted. -/
theorem admits_of_holder {p : String} (own : ∀ q, l.claim.holder = some q → q = p) :
    l.admits p = true := by
  have kept : Claim.isTakenOverBy p l.holder? = false := by
    cases held : l.holder? with
    | none => rfl
    | some q =>
      obtain rfl := own q (Option.filter_eq_some_iff.1 held).1
      simp [Claim.isTakenOverBy]
  simp [admits, kept]

theorem admits_of_isHeldBy {p : String} (held : l.isHeldBy p = true) : l.admits p = true :=
  admits_of_holder fun _ holder => Option.some.inj (holder.symm.trans (isHeldBy_iff.1 held).1)

/-- Only the greatest number has no successor. -/
theorem nextCount?_eq_none_iff {c : Claim} :
    c.nextCount? = none ↔ c.transitions = some Int32.maxValue := by
  rw [Claim.nextCount?]
  cases c.transitions with
  | none => decide
  | some n => simp

/-- A claim cannot be counted if it would take a lease over that has changed hands as often as can
be counted. -/
theorem admits_eq_false_iff {p : String} :
    l.admits p = false ↔
      Claim.isTakenOverBy p l.holder? = true ∧ l.claim.transitions = some Int32.maxValue := by
  simp [admits, nextCount?_eq_none_iff]

/-- A change of hands adds one to the number of them. -/
theorem claim_transitions_of_taken {p : String} {t : Stamp} (admits : l.admits p = true)
    (taken : Claim.isTakenOverBy p l.holder? = true) :
    l.claim.transitions.getD 0 ≠ Int32.maxValue ∧
      (l.edit (.claim p t)).claim.transitions = some (l.claim.transitions.getD 0 + 1) := by
  have room : l.claim.transitions.getD 0 ≠ Int32.maxValue := by
    intro greatest
    simp [Lease.admits, taken, Claim.nextCount?, greatest] at admits
  exact ⟨room, by simp [edit, Claim.renewedBy, taken, Claim.nextCount?, room]⟩

/-- Any other claim leaves the number as it is. -/
theorem claim_transitions_of_not_taken {p : String} {t : Stamp}
    (kept : Claim.isTakenOverBy p l.holder? = false) :
    (l.edit (.claim p t)).claim.transitions = l.claim.transitions := by
  simp [edit, Claim.renewedBy, kept]

/-- A lease that has been given up is held by nobody. -/
@[simp] theorem isHeldBy_release {p : String} : (l.edit .release).isHeldBy p = false := by
  have blank : (l.edit .release).holder? = none := by
    simp only [edit, holder?, Claim.released, Option.filter_eq_none_iff]
    intro h e
    obtain rfl := Option.some.inj e
    decide
  rw [isHeldBy, blank]
  rfl

/-! ## Expiry -/

/-- The last renewal is longer ago than it is good for, to the nanosecond. -/
def ExpiredBy (l : Lease) (now : Instant) : Prop :=
  ∃ renewed duration, l.claim.renewed = some renewed ∧ l.claim.duration = some duration ∧
    renewed.instant.plus (duration.toInt * 1000000000) < now

/-- The lease has a renewal and a duration for which it is good. -/
def IsTimed (l : Lease) : Prop :=
  l.claim.renewed.isSome = true ∧ l.claim.duration.isSome = true

/-- What has expired stays so. -/
theorem ExpiredBy.mono {s t : Instant} (h : l.ExpiredBy s) (k : s ≤ t) : l.ExpiredBy t := by
  obtain ⟨renewed, duration, hr, hd, late⟩ := h
  refine ⟨renewed, duration, hr, hd, ?_⟩
  exact Int.lt_of_lt_of_le late k

/-- **A lease that is available to somebody other than its holder has expired.** -/
theorem expiredBy_of_available {p q : String} {t : Instant} (timed : l.IsTimed)
    (held : l.isHeldBy p = true) (other : p ≠ q) (free : l.availableTo? q t = some true) :
    l.ExpiredBy t := by
  obtain ⟨renewed, hr⟩ := Option.isSome_iff_exists.1 timed.1
  obtain ⟨duration, hd⟩ := Option.isSome_iff_exists.1 timed.2
  have holder : l.holder? = some p := by simpa [isHeldBy] using held
  refine ⟨renewed, duration, hr, hd, ?_⟩
  simp only [availableTo?, holder, expiry, hr, hd] at free
  -- A date beyond the calendar gives no answer, so the claim ends at a date.
  cases hs : renewed.plusSeconds? duration.toInt with
  | none => simp [hs] at free
  | some stamp =>
    have value : stamp.instant = renewed.instant.plus (duration.toInt * 1000000000) := by
      simp only [Stamp.plusSeconds?] at hs
      split at hs
      · rw [← Option.some.inj hs]
      · contradiction
    rw [hs] at free
    simpa [other, value] using free

/-- There is no answer to whether a lease is available only if its claim ends beyond the
calendar. -/
theorem expiry_of_availableTo?_eq_none {q : String} {t : Instant}
    (h : l.availableTo? q t = none) : l.expiry = .outOfRange := by
  simp only [availableTo?] at h
  split at h
  · contradiction
  · split at h
    · contradiction
    · contradiction
    · assumption

/-- A claim whose end is a date of the calendar has expired when that date has passed. -/
theorem expiredBy_iff_of_expiry {time : Stamp} {t : Instant} (ends : l.expiry = .at time) :
    l.IsTimed ∧ (l.ExpiredBy t ↔ time.instant < t) := by
  simp only [expiry] at ends
  split at ends
  · rename_i renewed duration hr hd
    have timed : l.IsTimed := ⟨by rw [hr]; rfl, by rw [hd]; rfl⟩
    simp only [Stamp.plusSeconds?] at ends
    split at ends
    · rename_i later found
      split at found
      · obtain rfl := Option.some.inj found
        obtain rfl := Expiry.at.inj ends
        refine ⟨timed, ?_, fun late => ⟨renewed, duration, hr, hd, late⟩⟩
        rintro ⟨renewed', duration', hr', hd', late⟩
        obtain rfl := Option.some.inj (hr.symm.trans hr')
        obtain rfl := Option.some.inj (hd.symm.trans hd')
        exact late
      · contradiction
    · contradiction
  · contradiction

/-- What is available stays so. -/
theorem availableTo?_mono {q : String} {s t : Instant} (h : l.availableTo? q s = some true)
    (k : s ≤ t) : l.availableTo? q t = some true := by
  simp only [availableTo?] at h ⊢
  split
  · rfl
  · rename_i holder held
    rw [held] at h
    cases ends : l.expiry with
    | unlimited => rfl
    | outOfRange => simp [ends] at h
    | «at» time =>
      simp only [ends, Option.some.injEq, Bool.or_eq_true, decide_eq_true_eq] at h ⊢
      exact h.imp_left fun early => Int.lt_of_lt_of_le early k

/-- What is not available to somebody is in the hands of a holder whose claim has an end, and the
end has not come. -/
theorem of_not_available {q : String} {t : Instant} (h : l.availableTo? q t = some false) :
    l.IsTimed ∧ ¬ l.ExpiredBy t ∧ ∃ p, l.isHeldBy p = true := by
  simp only [availableTo?] at h
  split at h
  · contradiction
  · rename_i holder held
    split at h
    · contradiction
    · rename_i time ends
      obtain ⟨timed, late⟩ := expiredBy_iff_of_expiry (t := t) ends
      simp only [Option.some.injEq, Bool.or_eq_false_iff, decide_eq_false_iff_not] at h
      exact ⟨timed, fun expired => h.1 (late.1 expired), holder, by simp [isHeldBy, held]⟩
    · contradiction

/-- A claim is good: it has not expired, and its end is a date of the calendar. -/
def IsGood (l : Lease) (now : Instant) : Prop := ¬ l.ExpiredBy now ∧ l.expiry ≠ .outOfRange

/-- What is good later on is good before. -/
theorem IsGood.mono {s t : Instant} (h : l.IsGood t) (k : s ≤ t) : l.IsGood s :=
  ⟨fun expired => h.1 (expired.mono k), h.2⟩

/-- **A claim that is good keeps others off.** -/
theorem IsGood.keeps_off {p q : String} {t : Instant} (good : l.IsGood t) (timed : l.IsTimed)
    (held : l.isHeldBy p = true) (other : p ≠ q) : l.availableTo? q t = some false := by
  cases free : l.availableTo? q t with
  | none => exact absurd (expiry_of_availableTo?_eq_none free) good.2
  | some vacant =>
    cases vacant with
    | false => rfl
    | true => exact absurd (expiredBy_of_available timed held other free) good.1

/-- A lease is available to its holder, if there is an answer. -/
theorem not_isHeldBy_of_not_available {q : String} {t : Instant}
    (h : l.availableTo? q t = some false) : l.isHeldBy q = false := by
  rw [Bool.eq_false_iff]
  intro held
  have holder : l.holder? = some q := by simpa [isHeldBy] using held
  simp only [availableTo?, holder] at h
  split at h <;> simp at h

end Lease

end LeasePool
