import LeasePool.Store.Memory

/-!
# Versions of stored leases

What a store in memory does with a request, told once for all requests: either nothing changes,
or one lease is stored, under its own key and with the next version. Everything about
interleaved operations rests on the two statements `stored?_answer` and `answer_of_not_stored`,
and nobody looks into `MemoryStore.answer` again.

## Main definitions

* `StoreCall.written?`, `StoreCall.stored?`: the lease that a request wants to write, and the
  lease that its reply says was stored.
* `MemoryStore.IsSound`: leases lie under their own keys, with versions that were given out.

## Main statements

* `MemoryStore.stored?_answer`: what has happened if a lease was stored.
* `MemoryStore.answer_of_not_stored`: nothing has happened if none was.
* `MemoryStore.IsSound.answer`: every request keeps the store sound.
* `MemoryStore.versionText_injective`: different versions have different texts.
-/

namespace LeasePool

namespace StoreCall

/-- The lease that a request wants to write. -/
def written? : StoreCall → Option Lease
  | createLease l | updateLease l => some l
  | _ => none

/-- The lease that was stored, as the reply to the request says. -/
def stored? : (c : StoreCall) → c.Reply → Option Lease
  | createLease _, .ok l | updateLease _, .ok l => some l
  | _, _ => none

end StoreCall

namespace MemoryStore

/-- Different versions have different texts. -/
theorem versionText_injective {m n : Nat} (h : versionText m = versionText n) : m = n := by
  have digits : Nat.toDigits 10 m = Nat.toDigits 10 n := String.ofList_injective h
  rw [← Nat.ofDigitChars_ten_toDigits (n := m), digits, Nat.ofDigitChars_ten_toDigits]

@[simp] theorem claim_stamped {s : MemoryStore} {l : Lease} : (s.stamped l).claim = l.claim := rfl
@[simp] theorem claim_created {s : MemoryStore} {l : Lease} : (s.created l).claim = l.claim := rfl
@[simp] theorem version_write {s : MemoryStore} {l : Lease} :
    (s.write l).version = s.version + 1 := rfl

/-- A write stores the lease under its key, and all other leases are as before. -/
theorem get?_write {s : MemoryStore} {l : Lease} {k : LeaseKey} :
    (s.write l).leases.get? k = if k = l.key then some (s.stamped l) else s.leases.get? k :=
  Table.get?_insert

/-- Whatever is asked of a store that is switched off, it refuses. -/
theorem answer_of_offline {s : MemoryStore} {c : StoreCall} (h : s.offline = true) :
    s.answer c = (s, .error (.unavailable .offline)) := by
  simp [answer, h]

/-- Leases lie under their own keys, with versions that were given out. -/
def IsSound (s : MemoryStore) : Prop :=
  ∀ k l, s.leases.get? k = some l →
    l.key = k ∧ ∃ n ≤ s.version, l.metadata.version = some (versionText n)

/-- A store without leases is sound. -/
theorem isSound_of_empty {s : MemoryStore} (h : s.leases = .empty) : s.IsSound := by
  intro k l hl
  rw [h] at hl
  contradiction

/-- Whatever is put into a store, it stays sound. -/
theorem IsSound.put {s : MemoryStore} (h : s.IsSound) (l : Lease) : (s.put l).IsSound := by
  intro k m hm
  have hm : (if k = l.key then some (s.stamped l) else s.leases.get? k) = some m :=
    Table.get?_insert.symm.trans hm
  split at hm
  · rename_i hk
    obtain rfl := Option.some.inj hm
    exact ⟨hk.symm, s.version + 1, Nat.le_refl _, rfl⟩
  · obtain ⟨hk, n, hn, hv⟩ := h k m hm
    exact ⟨hk, n, Nat.le_succ_of_le hn, hv⟩

/-- Whatever is removed from a store, it stays sound. -/
theorem IsSound.remove {s : MemoryStore} (h : s.IsSound) (ns name : String) :
    (s.remove ns name).IsSound := by
  intro k m hm
  have hm : (if k = ⟨ns, name⟩ then none else s.leases.get? k) = some m :=
    Table.get?_erase.symm.trans hm
  split at hm
  · contradiction
  · exact h k m hm

/-! ## The two writing requests -/

theorem create_of_free {s : MemoryStore} {a : Lease} (h : s.leases.get? a.key = none) :
    s.create a = (s.write (s.created a), .ok (s.stamped (s.created a))) := by
  simp [create, Table.contains, h]

theorem create_of_taken {s : MemoryStore} {a b : Lease} (h : s.leases.get? a.key = some b) :
    s.create a = (s, .error (.conflict .lease a.name)) := by
  simp [create, Table.contains, h]

theorem update_of_missing {s : MemoryStore} {a : Lease} (h : s.leases.get? a.key = none) :
    s.update a = (s, .error (.notFound .lease a.name)) := by
  simp [update, h]

/-- Whether an update that shows the version of `a` is let through where `b` is stored. -/
def Shows (a b : Lease) : Prop :=
  a.metadata.version = none ∨ a.metadata.version = b.metadata.version

theorem update_of_shows {s : MemoryStore} {a b : Lease} (h : s.leases.get? a.key = some b)
    (hv : Shows a b) : s.update a = (s.write a, .ok (s.stamped a)) := by
  rcases hv with hv | hv <;> simp [update, h, hv]

theorem update_of_not_shows {s : MemoryStore} {a b : Lease} (h : s.leases.get? a.key = some b)
    (hv : ¬ Shows a b) : s.update a = (s, .error (.conflict .lease a.name)) := by
  rw [Shows, not_or, ← ne_eq, ← ne_eq, ← Option.isSome_iff_ne_none] at hv
  simp [update, h, hv]

/-! ## All requests -/

/-- **If a lease was stored**, then by a creation under a free key, or by an update that showed
the stored version or none. -/
theorem stored?_answer {s : MemoryStore} {c : StoreCall} {l : Lease}
    (h : c.stored? (s.answer c).2 = some l) :
    (∃ a, c = .createLease a ∧ s.leases.get? a.key = none ∧ l = s.stamped (s.created a) ∧
      (s.answer c).1 = s.write (s.created a)) ∨
    (∃ a b, c = .updateLease a ∧ s.leases.get? a.key = some b ∧ Shows a b ∧
      l = s.stamped a ∧ (s.answer c).1 = s.write a) := by
  cases ho : s.offline with
  | true => rw [answer_of_offline ho] at h; cases c <;> simp [StoreCall.stored?] at h
  | false =>
    cases c with
    | getLease ns name => simp [StoreCall.stored?] at h
    | listLeases ns selector => simp [StoreCall.stored?] at h
    | getWorkload kind ns name => simp [StoreCall.stored?] at h
    | createLease a =>
      have he : s.answer (.createLease a) = s.create a := by simp [answer, ho]
      rw [he] at h ⊢
      cases hk : s.leases.get? a.key with
      | some b => rw [create_of_taken hk] at h; simp [StoreCall.stored?] at h
      | none =>
        rw [create_of_free hk] at h ⊢
        exact .inl ⟨a, rfl, hk, (Option.some.inj h).symm, rfl⟩
    | updateLease a =>
      have he : s.answer (.updateLease a) = s.update a := by simp [answer, ho]
      rw [he] at h ⊢
      cases hk : s.leases.get? a.key with
      | none => rw [update_of_missing hk] at h; simp [StoreCall.stored?] at h
      | some b =>
        by_cases hv : Shows a b
        · rw [update_of_shows hk hv] at h ⊢
          exact .inr ⟨a, b, rfl, hk, hv, (Option.some.inj h).symm, rfl⟩
        · rw [update_of_not_shows hk hv] at h; simp [StoreCall.stored?] at h

/-- If no lease was stored, nothing has changed. -/
theorem answer_of_not_stored {s : MemoryStore} {c : StoreCall}
    (h : c.stored? (s.answer c).2 = none) : (s.answer c).1 = s := by
  cases ho : s.offline with
  | true => rw [answer_of_offline ho]
  | false =>
    cases c with
    | getLease ns name => simp [answer, ho]
    | listLeases ns selector => simp [answer, ho]
    | getWorkload kind ns name => simp [answer, ho]
    | createLease a =>
      have he : s.answer (.createLease a) = s.create a := by simp [answer, ho]
      rw [he] at h ⊢
      cases hk : s.leases.get? a.key with
      | some b => rw [create_of_taken hk]
      | none => rw [create_of_free hk] at h; simp [StoreCall.stored?] at h
    | updateLease a =>
      have he : s.answer (.updateLease a) = s.update a := by simp [answer, ho]
      rw [he] at h ⊢
      cases hk : s.leases.get? a.key with
      | none => rw [update_of_missing hk]
      | some b =>
        by_cases hv : Shows a b
        · rw [update_of_shows hk hv] at h; simp [StoreCall.stored?] at h
        · rw [update_of_not_shows hk hv]

/-- No request switches a store off, or on. -/
theorem offline_answer {s : MemoryStore} {c : StoreCall} :
    (s.answer c).1.offline = s.offline := by
  cases hc : c.stored? (s.answer c).2 with
  | none => rw [answer_of_not_stored hc]
  | some l =>
    rcases stored?_answer hc with ⟨a, -, -, -, hw⟩ | ⟨a, b, -, -, -, -, hw⟩ <;> (rw [hw]; rfl)

/-- Whatever is asked of a store, it stays sound. -/
theorem IsSound.answer {s : MemoryStore} (h : s.IsSound) (c : StoreCall) :
    (s.answer c).1.IsSound := by
  cases hc : c.stored? (s.answer c).2 with
  | none => rw [answer_of_not_stored hc]; exact h
  | some l =>
    rcases stored?_answer hc with ⟨a, -, -, -, hw⟩ | ⟨a, b, -, -, -, -, hw⟩
    · rw [hw]; exact h.put _
    · rw [hw]; exact h.put _

end MemoryStore

end LeasePool
