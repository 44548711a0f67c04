import LeasePool.Lease.Naming

/-!
# Names and labels of pool leases tell roles and pools apart

The leader lease has no member's name, no two pools have a name in common, whatever they are
called, and the selector of member leases finds the leases with the labels of a member of the
pool, and no others.
-/

namespace LeasePool

/-- The leader lease of a pool has no member's name. -/
theorem leaderLeaseName_ne_memberLeaseName {p q : String} {ordinal : Nat} :
    leaderLeaseName p ≠ memberLeaseName q ordinal := by
  intro same
  have chars := congrArg String.toList same
  unfold leaderLeaseName memberLeaseName at chars
  simp only [String.toList_append] at chars
  generalize (String.ofList (Text.padded 2 ordinal)).toList = digits at chars
  simp at chars

/-- An ordinal is written in digits. -/
theorem dash_notMem_padded {width n : Nat} : '-' ∉ Text.padded width n := by
  intro mem
  rw [Text.padded, Text.decimal, List.mem_append] at mem
  rcases mem with zero | digit
  · have same : '-' = '0' := List.eq_of_mem_replicate zero
    contradiction
  · have isDigit : '-'.isDigit = true := Nat.isDigit_of_mem_toDigits (by decide) (by decide) digit
    contradiction

theorem toList_leaderLeaseName {pool : String} :
    (leaderLeaseName pool).toList = "flow-pool-leader-".toList ++ pool.toList := by
  unfold leaderLeaseName
  exact String.toList_append

theorem toList_memberLeaseName {pool : String} {ordinal : Nat} :
    (memberLeaseName pool ordinal).toList =
      "flow-pool-member-".toList ++ (pool.toList ++ '-' :: Text.padded 2 ordinal) := by
  unfold memberLeaseName
  simp only [String.toList_append, String.toList_ofList, List.append_assoc]
  rfl

/-- Member leases of different pools have different names: whatever a pool is called, its name
ends before the last dash. -/
theorem eq_of_memberLeaseName_eq {p q : String} {i j : Nat}
    (same : memberLeaseName p i = memberLeaseName q j) : p = q := by
  have chars := congrArg String.toList same
  rw [toList_memberLeaseName, toList_memberLeaseName, List.append_cancel_left_eq] at chars
  -- If one of the two were longer, its dash would be among the digits of the other.
  rcases List.append_eq_append_iff.1 chars with ⟨rest, hq, hi⟩ | ⟨rest, hp, hj⟩
  · cases rest with
    | nil => exact String.toList_injective (by simpa using hq.symm)
    | cons c rest =>
      have digits : Text.padded 2 i = rest ++ '-' :: Text.padded 2 j := (List.cons.inj hi).2
      have mem : '-' ∈ Text.padded 2 i := by rw [digits]; simp
      exact absurd mem dash_notMem_padded
  · cases rest with
    | nil => exact String.toList_injective (by simpa using hp)
    | cons c rest =>
      have digits : Text.padded 2 j = rest ++ '-' :: Text.padded 2 i := (List.cons.inj hj).2
      have mem : '-' ∈ Text.padded 2 j := by rw [digits]; simp
      exact absurd mem dash_notMem_padded

/-- Leader leases of different pools have different names. -/
theorem eq_of_leaderLeaseName_eq {p q : String} (same : leaderLeaseName p = leaderLeaseName q) :
    p = q := by
  have chars := congrArg String.toList same
  rw [toList_leaderLeaseName, toList_leaderLeaseName] at chars
  exact String.toList_injective (List.append_cancel_left chars)

namespace Role

/-- Whether a name is one for the leases of a pool in a role. -/
def Names (pool : String) : Role → String → Prop
  | leader, name => name = leaderLeaseName pool
  | member, name => ∃ ordinal, name = memberLeaseName pool ordinal

variable {r s : Role} {p q : String}

/-- **A name tells the role and the pool** of a lease. -/
theorem Names.unique {name : String} (hr : r.Names p name) (hs : s.Names q name) :
    r = s ∧ p = q := by
  cases r <;> cases s
  · exact ⟨rfl, eq_of_leaderLeaseName_eq (hr.symm.trans hs)⟩
  · obtain ⟨j, hs⟩ := hs
    exact absurd (hr.symm.trans hs) leaderLeaseName_ne_memberLeaseName
  · obtain ⟨i, hr⟩ := hr
    exact absurd (hs.symm.trans hr) leaderLeaseName_ne_memberLeaseName
  · obtain ⟨i, hr⟩ := hr
    obtain ⟨j, hs⟩ := hs
    exact ⟨rfl, eq_of_memberLeaseName_eq (hr.symm.trans hs)⟩

/-- What labels say about the role and the pool. -/
theorem get?_labels {pool k : String} :
    (r.labels pool).get? k =
      if k = poolLabel then some pool
      else if k = isLeaderLabel then some r.labelValue
      else (Table.ofList baseLabels).get? k := by
  rw [labels, Table.get?_insert, Table.get?_insert]

theorem labelValue_injective (h : r.labelValue = s.labelValue) : r = s := by
  cases r <;> cases s <;> simp_all [labelValue]

end Role

/-- A selector selects the labels that have all its entries. -/
theorem Labels.selects_iff {selector labels : Labels} :
    selector.selects labels = true ↔
      ∀ k v, selector.get? k = some v → labels.get? k = some v := by
  simp only [selects, List.all_eq_true, decide_eq_true_eq, Prod.forall, Table.get?_eq_some_iff]

theorem get?_memberSelector {pool k : String} :
    (memberSelector pool).get? k =
      if k = isLeaderLabel then some Role.member.labelValue
      else if k = poolLabel then some pool else none := by
  have built : memberSelector pool =
      (Table.empty.insert poolLabel pool).insert isLeaderLabel Role.member.labelValue := rfl
  rw [built, Table.get?_insert, Table.get?_insert, Table.get?_empty]

/-- **What a member scan finds** among the leases of all pools: those of the members of the
pool. -/
theorem selects_memberSelector_labels_iff {role : Role} {pool other : String} :
    (memberSelector pool).selects (role.labels other) = true ↔ role = .member ∧ other = pool := by
  have distinct : isLeaderLabel ≠ poolLabel := by simp [isLeaderLabel, poolLabel]
  rw [Labels.selects_iff]
  constructor
  · intro H
    have ofRole := H isLeaderLabel _ (get?_memberSelector.trans (if_pos rfl))
    have ofPool := H poolLabel pool (get?_memberSelector.trans (by simp [Ne.symm distinct]))
    rw [Role.get?_labels, if_neg distinct, if_pos rfl] at ofRole
    rw [Role.get?_labels, if_pos rfl] at ofPool
    exact ⟨Role.labelValue_injective (Option.some.inj ofRole), Option.some.inj ofPool⟩
  · rintro ⟨rfl, rfl⟩ k v hv
    rw [get?_memberSelector] at hv
    rw [Role.get?_labels]
    by_cases ofPool : k = poolLabel
    · simpa [ofPool, Ne.symm distinct] using hv
    · simp only [ofPool, if_false] at hv ⊢
      split at hv
      · rename_i ofRole
        rw [if_pos ofRole]
        exact hv
      · contradiction

/-- Among the leases of one pool a member scan finds those of the members. -/
theorem selects_memberSelector_iff {role : Role} {pool : String} :
    (memberSelector pool).selects (role.labels pool) = true ↔ role = .member := by
  simp [selects_memberSelector_labels_iff]

end LeasePool
