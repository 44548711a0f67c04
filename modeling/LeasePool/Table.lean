/-!
# Tables

Finite maps as lists of entries in strictly ascending order of their keys. Two tables with the
same entries are the same table, so tables can be compared, and a table is shown and searched in
one order only.

## Main definitions

* `Key`: the order that keys need.
* `Table`: entries in ascending order of keys.
* `Table.get?`, `Table.insert`, `Table.erase`, `Table.override`, `Table.ofList`.

## Main statements

* `Table.get?_insert`, `Table.get?_erase`: what each operation does to a look-up.
* `Table.get?_override`: of two tables, the second decides where it has an entry.
* `Table.ext_get?`: tables with the same look-ups are equal.
-/

namespace LeasePool

/-- A strict linear order. -/
class Key (κ : Type) extends LT κ where
  lt_irrefl (a : κ) : ¬ a < a
  lt_trans {a b c : κ} : a < b → b < c → a < c
  lt_or_eq_or_gt (a b : κ) : a < b ∨ a = b ∨ b < a
  decLt (a b : κ) : Decidable (a < b)

instance Key.decidableLt {κ : Type} [Key κ] (a b : κ) : Decidable (a < b) := Key.decLt a b

instance : Key String where
  lt_irrefl := String.lt_irrefl
  lt_trans := String.lt_trans
  lt_or_eq_or_gt a b := by
    by_cases h : a < b
    · exact .inl h
    · by_cases h' : b < a
      · exact .inr (.inr h')
      · exact .inr (.inl (String.le_antisymm (String.not_lt.1 h') (String.not_lt.1 h)))
  decLt := inferInstance

/-- Entries in strictly ascending order of their keys. -/
structure Table (κ α : Type) [Key κ] where
  entries : List (κ × α)
  ascending : entries.Pairwise fun a b => a.1 < b.1 := by simp

namespace Table

variable {κ α : Type} [Key κ]

theorem ext {a b : Table κ α} (h : a.entries = b.entries) : a = b := by
  cases a; cases b; simp_all

instance [DecidableEq κ] [DecidableEq α] : DecidableEq (Table κ α) := fun a b =>
  decidable_of_iff (a.entries = b.entries) ⟨ext, fun h => h ▸ rfl⟩

instance : Inhabited (Table κ α) := ⟨⟨[], by simp⟩⟩

/-- The table without entries. -/
def empty : Table κ α := ⟨[], by simp⟩

/-- The values in ascending order of their keys. -/
def values (t : Table κ α) : List α := t.entries.map (·.2)

/-- Whether the table has no entries. -/
def isEmpty (t : Table κ α) : Bool := t.entries.isEmpty

variable [DecidableEq κ]

/-- The value of the first entry with the key. -/
def lookup (k : κ) : List (κ × α) → Option α
  | [] => none
  | (l, v) :: rest => if k = l then some v else lookup k rest

/-- Puts an entry in its place, instead of one with the same key. -/
def insertEntry (k : κ) (v : α) : List (κ × α) → List (κ × α)
  | [] => [(k, v)]
  | (l, w) :: rest =>
    if k < l then (k, v) :: (l, w) :: rest
    else if k = l then (k, v) :: rest
    else (l, w) :: insertEntry k v rest

theorem mem_insertEntry {k : κ} {v : α} {e : κ × α} {es : List (κ × α)}
    (h : e ∈ insertEntry k v es) : e = (k, v) ∨ e ∈ es := by
  induction es with
  | nil => simpa [insertEntry] using h
  | cons f rest ih =>
    obtain ⟨l, w⟩ := f
    simp only [insertEntry] at h
    split at h
    · simpa using h
    · split at h
      · rcases List.mem_cons.1 h with h | h
        · exact .inl h
        · exact .inr (List.mem_cons_of_mem _ h)
      · rcases List.mem_cons.1 h with h | h
        · exact .inr (h ▸ List.mem_cons_self)
        · exact (ih h).imp id (List.mem_cons_of_mem _)

theorem pairwise_insertEntry {k : κ} {v : α} {es : List (κ × α)}
    (h : es.Pairwise fun a b => a.1 < b.1) :
    (insertEntry k v es).Pairwise fun a b => a.1 < b.1 := by
  induction es with
  | nil => simp [insertEntry]
  | cons f rest ih =>
    obtain ⟨l, w⟩ := f
    obtain ⟨first, later⟩ := List.pairwise_cons.1 h
    simp only [insertEntry]
    split
    · rename_i below
      refine List.pairwise_cons.2 ⟨fun e he => ?_, h⟩
      rcases List.mem_cons.1 he with rfl | he
      · exact below
      · exact Key.lt_trans below (first e he)
    · split
      · rename_i same
        subst same
        exact List.pairwise_cons.2 ⟨first, later⟩
      · rename_i notBelow other
        refine List.pairwise_cons.2 ⟨fun e he => ?_, ih later⟩
        rcases mem_insertEntry he with rfl | he
        · rcases Key.lt_or_eq_or_gt k l with h | h | h
          · exact absurd h notBelow
          · exact absurd h other
          · exact h
        · exact first e he

/-- The value under a key. -/
def get? (t : Table κ α) (k : κ) : Option α := lookup k t.entries

/-- Whether the table has an entry with the key. -/
def contains (t : Table κ α) (k : κ) : Bool := (t.get? k).isSome

/-- The table with the value under the key, whatever was there before. -/
def insert (t : Table κ α) (k : κ) (v : α) : Table κ α :=
  ⟨insertEntry k v t.entries, pairwise_insertEntry t.ascending⟩

/-- The table without an entry under the key. -/
def erase (t : Table κ α) (k : κ) : Table κ α :=
  ⟨t.entries.filter fun e => e.1 ≠ k, t.ascending.filter _⟩

/-- The table of the entries, of which the last with a key counts. -/
def ofList (entries : List (κ × α)) : Table κ α :=
  entries.foldl (fun t e => t.insert e.1 e.2) empty

/-- The entries of both tables, of which those of `u` count where both have one. -/
def override (t u : Table κ α) : Table κ α :=
  u.entries.foldl (fun t e => t.insert e.1 e.2) t

/-! ## Look-ups -/

theorem lookup_insertEntry {k l : κ} {v : α} {es : List (κ × α)} :
    lookup l (insertEntry k v es) = if l = k then some v else lookup l es := by
  induction es with
  | nil => rfl
  | cons f rest ih =>
    obtain ⟨m, w⟩ := f
    simp only [insertEntry]
    split
    · rfl
    · split
      · rename_i same
        subst same
        by_cases h : l = k <;> simp [lookup, h]
      · rename_i other
        by_cases h : l = m
        · subst h
          simp [lookup, Ne.symm other]
        · simp [lookup, h, ih]

@[simp] theorem get?_empty {k : κ} : (empty : Table κ α).get? k = none := rfl

theorem get?_insert {t : Table κ α} {k l : κ} {v : α} :
    (t.insert k v).get? l = if l = k then some v else t.get? l :=
  lookup_insertEntry

theorem get?_erase {t : Table κ α} {k l : κ} :
    (t.erase k).get? l = if l = k then none else t.get? l := by
  obtain ⟨es, h⟩ := t
  simp only [get?, erase]
  clear h
  induction es with
  | nil => simp [lookup]
  | cons f rest ih =>
    obtain ⟨m, w⟩ := f
    by_cases hm : m = k
    · subst hm
      by_cases h : l = m
      · subst h
        simpa [lookup] using ih
      · simpa [lookup, h] using ih
    · by_cases h : l = m
      · subst h
        simp [lookup, hm]
      · simpa [lookup, h, hm] using ih

theorem lookup_eq_none_of_forall_lt {k : κ} {es : List (κ × α)} (h : ∀ e ∈ es, k < e.1) :
    lookup k es = none := by
  induction es with
  | nil => rfl
  | cons f rest ih =>
    obtain ⟨m, w⟩ := f
    have first := h (m, w) List.mem_cons_self
    have other : k ≠ m := fun e => Key.lt_irrefl m (e ▸ first)
    simp [lookup, other, ih fun e he => h e (List.mem_cons_of_mem _ he)]

theorem lookup_eq_some_iff {k : κ} {v : α} {es : List (κ × α)}
    (h : es.Pairwise fun a b => a.1 < b.1) : lookup k es = some v ↔ (k, v) ∈ es := by
  induction es with
  | nil => simp [lookup]
  | cons f rest ih =>
    obtain ⟨m, w⟩ := f
    obtain ⟨first, later⟩ := List.pairwise_cons.1 h
    by_cases hm : k = m
    · subst hm
      have gone : ∀ x, (k, x) ∉ rest := fun x hx => Key.lt_irrefl k (first _ hx)
      simp [lookup, gone, eq_comm]
    · simp [lookup, hm, ih later]

/-- An entry is found under its key, and only what is found is an entry. -/
theorem get?_eq_some_iff {t : Table κ α} {k : κ} {v : α} :
    t.get? k = some v ↔ (k, v) ∈ t.entries :=
  lookup_eq_some_iff t.ascending

theorem entries_eq_of_lookup {es fs : List (κ × α)}
    (he : es.Pairwise fun a b => a.1 < b.1) (hf : fs.Pairwise fun a b => a.1 < b.1)
    (h : ∀ k, lookup k es = lookup k fs) : es = fs := by
  induction es generalizing fs with
  | nil =>
    cases fs with
    | nil => rfl
    | cons f rest => exact absurd (h f.1) (by simp [lookup])
  | cons e es ih =>
    cases fs with
    | nil => exact absurd (h e.1) (by simp [lookup])
    | cons f fs =>
      obtain ⟨k, v⟩ := e
      obtain ⟨l, w⟩ := f
      obtain ⟨firstE, laterE⟩ := List.pairwise_cons.1 he
      obtain ⟨firstF, laterF⟩ := List.pairwise_cons.1 hf
      have same : k = l := by
        rcases Key.lt_or_eq_or_gt k l with hkl | hkl | hkl
        · have absent : lookup k ((l, w) :: fs) = none := lookup_eq_none_of_forall_lt fun x hx => by
            rcases List.mem_cons.1 hx with rfl | hx
            · exact hkl
            · exact Key.lt_trans hkl (firstF _ hx)
          have := h k
          rw [absent] at this
          simp [lookup] at this
        · exact hkl
        · have absent : lookup l ((k, v) :: es) = none := lookup_eq_none_of_forall_lt fun x hx => by
            rcases List.mem_cons.1 hx with rfl | hx
            · exact hkl
            · exact Key.lt_trans hkl (firstE _ hx)
          have := h l
          rw [absent] at this
          simp [lookup] at this
      subst same
      have value : v = w := by simpa [lookup] using h k
      subst value
      congr 1
      refine ih laterE laterF fun m => ?_
      by_cases hm : m = k
      · subst hm
        rw [lookup_eq_none_of_forall_lt firstE, lookup_eq_none_of_forall_lt firstF]
      · simpa [lookup, hm] using h m

/-- Tables with the same look-ups are equal. -/
theorem ext_get? {t u : Table κ α} (h : ∀ k, t.get? k = u.get? k) : t = u :=
  ext (entries_eq_of_lookup t.ascending u.ascending h)

theorem get?_foldl_insert {t : Table κ α} {es : List (κ × α)} {k : κ}
    (h : es.Pairwise fun a b => a.1 < b.1) :
    (es.foldl (fun t e => t.insert e.1 e.2) t).get? k = (lookup k es).or (t.get? k) := by
  induction es generalizing t with
  | nil => simp [lookup]
  | cons e es ih =>
    obtain ⟨l, v⟩ := e
    obtain ⟨first, later⟩ := List.pairwise_cons.1 h
    simp only [List.foldl_cons, ih later, get?_insert]
    by_cases hk : k = l
    · subst hk
      simp [lookup, lookup_eq_none_of_forall_lt first]
    · simp [lookup, hk]

/-- Of two tables, the second decides where it has an entry. -/
theorem get?_override {t u : Table κ α} {k : κ} :
    (t.override u).get? k = (u.get? k).or (t.get? k) :=
  get?_foldl_insert u.ascending

end Table

end LeasePool
