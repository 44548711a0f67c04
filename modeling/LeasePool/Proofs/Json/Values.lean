import Mathlib.Data.List.Forall2
import LeasePool.Json.Basic

/-!
# Documents and their values

The value of a document within a nesting depth sorts the members of each object by key and keeps
the last of those with one key: it makes a table of them. A value is its own value. What stands
under a key of an object is found again in the value of the object, as the value of the last
member with the key.

## Main definitions

* `Json.IsValue`: documents that are values within a depth.
* `Json.get?`: what stands under a key of an object.
* `Json.AreOthers`: members that may be kept beside those that are known.

## Main statements

* `Json.isValue_of_value?`: the value of a document is a value.
* `Json.get?_of_value?`: what stands under a key of the value of an object.
* `Json.get?_of_others?`, `Json.others?_entries`: the members that are kept.
-/

namespace LeasePool

namespace Table

variable {κ α : Type} [Key κ] [DecidableEq κ] {t : Table κ α} {es fs : List (κ × α)} {k l : κ}

/-! ## Tables of lists -/

theorem get?_foldl : (es.foldl (fun t e => t.insert e.1 e.2) t).get? k =
    ((ofList es).get? k).or (t.get? k) := by
  induction es generalizing t with
  | nil => simp [ofList]
  | cons e es ih =>
    rw [ofList, List.foldl_cons, List.foldl_cons, ih, ih, get?_insert, get?_insert, get?_empty]
    split <;> cases (ofList es).get? k <;> rfl

@[simp] theorem get?_ofList_nil : (ofList ([] : List (κ × α))).get? k = none := rfl

/-- Of two entries with a key, the later counts. -/
theorem get?_ofList_cons {v : α} :
    (ofList ((l, v) :: es)).get? k = ((ofList es).get? k).or (if k = l then some v else none) := by
  rw [ofList, List.foldl_cons, get?_foldl, get?_insert, get?_empty]

theorem get?_ofList_append :
    (ofList (es ++ fs)).get? k = ((ofList fs).get? k).or ((ofList es).get? k) := by
  rw [ofList, List.foldl_append, get?_foldl, ofList, ofList]

/-- The entries of a table make up the table. -/
@[simp] theorem ofList_entries : ofList t.entries = t := by
  refine ext_get? fun k => ?_
  rw [ofList, get?_foldl_insert t.ascending, get?_empty, Option.or_none, get?]

/-- What is found is among the entries. -/
theorem mem_of_get?_ofList {v : α} (h : (ofList es).get? k = some v) : (k, v) ∈ es := by
  induction es with
  | nil => simp at h
  | cons e es ih =>
    obtain ⟨l, w⟩ := e
    rw [get?_ofList_cons, Option.or_eq_some_iff] at h
    rcases h with later | ⟨-, here⟩
    · exact List.mem_cons_of_mem _ (ih later)
    · split at here
      · rename_i same
        rw [same, Option.some.inj here]
        exact List.mem_cons_self
      · contradiction

/-- Under a key that no entry has there is nothing. -/
theorem get?_ofList_eq_none (h : k ∉ es.map (·.1)) : (ofList es).get? k = none :=
  Option.eq_none_iff_forall_ne_some.2 fun v found =>
    h (List.mem_map.2 ⟨(k, v), mem_of_get?_ofList found, rfl⟩)

/-- The entries whose keys pass a test. -/
theorem get?_ofList_filter {p : κ → Bool} :
    (ofList (es.filter fun e => p e.1)).get? k = if p k then (ofList es).get? k else none := by
  induction es with
  | nil => simp
  | cons e es ih =>
    obtain ⟨l, v⟩ := e
    by_cases pass : p l = true
    · rw [List.filter_cons_of_pos (by simpa using pass), get?_ofList_cons, get?_ofList_cons, ih]
      by_cases same : k = l
      · subst same
        simp [pass]
      · simp [same]
    · rw [List.filter_cons_of_neg (by simpa using pass), get?_ofList_cons, ih]
      by_cases same : k = l
      · subst same
        simp [pass]
      · simp [same]

end Table

namespace Json

/-- What is made of a list element by element. -/
theorem mapM_eq_some {α β : Type} {read : α → Option β} {xs : List α} {ys : List β} :
    xs.mapM read = some ys ↔ List.Forall₂ (fun x y => read x = some y) xs ys := by
  induction xs generalizing ys with
  | nil => simp [eq_comm]
  | cons x xs ih =>
    simp only [List.mapM_cons, Option.bind_eq_bind, Option.bind_eq_some_iff, ih,
      List.forall₂_cons_left_iff, Option.pure_def, Option.some.injEq]
    constructor
    · rintro ⟨y, first, ys', later, rfl⟩
      exact ⟨y, ys', first, later, rfl⟩
    · rintro ⟨y, ys', first, later, rfl⟩
      exact ⟨y, first, ys', later, rfl⟩

/-! ## Members -/

theorem insertMember_eq_insertEntry {key : String} {value : Json} {ms : List (String × Json)} :
    insertMember key value ms = Table.insertEntry key value ms := by
  induction ms with
  | nil => rfl
  | cons m ms ih =>
    obtain ⟨k, v⟩ := m
    simp only [insertMember, Table.insertEntry, ih]

/-- **Sorted members are the entries of a table.** -/
theorem sortMembers_eq_entries {ms : List (String × Json)} :
    sortMembers ms = (Table.ofList ms).entries := by
  have general : ∀ t : Table String Json,
      ms.foldl (fun sorted m => insertMember m.1 m.2 sorted) t.entries =
        (ms.foldl (fun t e => t.insert e.1 e.2) t).entries := by
    induction ms with
    | nil => exact fun t => rfl
    | cons m ms ih =>
      intro t
      rw [List.foldl_cons, List.foldl_cons, insertMember_eq_insertEntry]
      exact ih (t.insert m.1 m.2)
  exact general .empty

theorem ofMembers_eq_object {ms : List (String × Json)} :
    ofMembers ms = .object (Table.ofList ms).entries := by
  rw [ofMembers, sortMembers_eq_entries]

theorem get?_ofList_unless {c : Prop} [Decidable c] {key k : String} {v : Json} :
    (Table.ofList (if c then [] else [(key, v)])).get? k =
      if k = key then if c then none else some v else none := by
  by_cases h : c <;> simp [h, Table.get?_ofList_cons]

theorem get?_ofList_member {α : Type} {key k : String} {write : α → Json} {o : Option α} :
    (Table.ofList (member key write o)).get? k = if k = key then o.map write else none := by
  cases o with
  | none => simp [member]
  | some a => simp [member, Table.get?_ofList_cons]

/-- What stands under a key of an object, at last if the key is repeated. -/
def get? (key : String) : Json → Option Json
  | .object members => (Table.ofList members).get? key
  | _ => none

@[simp] theorem get?_object_entries {t : Table String Json} {k : String} :
    (object t.entries).get? k = t.get? k := by
  rw [get?, Table.ofList_entries]

/-! ## Values -/

theorem valueItems?_eq_mapM {d : Nat} {xs : List Json} : valueItems? d xs = xs.mapM (value? d) := by
  induction xs with
  | nil => rfl
  | cons x xs ih =>
    rw [valueItems?, ih, List.mapM_cons]

theorem valueMembers?_eq_mapM {d : Nat} {ms : List (String × Json)} :
    valueMembers? d ms = ms.mapM fun m => (m.2.value? d).map fun v => (m.1, v) := by
  induction ms with
  | nil => rfl
  | cons m ms ih =>
    obtain ⟨k, x⟩ := m
    rw [valueMembers?, ih, List.mapM_cons]
    cases x.value? d <;> rfl

theorem valueItems?_eq_some {d : Nat} {xs vs : List Json} :
    valueItems? d xs = some vs ↔ List.Forall₂ (fun x v => x.value? d = some v) xs vs := by
  rw [valueItems?_eq_mapM, mapM_eq_some]

theorem valueMembers?_eq_some {d : Nat} {ms vs : List (String × Json)} :
    valueMembers? d ms = some vs ↔
      List.Forall₂ (fun m v => m.1 = v.1 ∧ m.2.value? d = some v.2) ms vs := by
  have each : ∀ m v : String × Json, (m.2.value? d).map (fun v => (m.1, v)) = some v ↔
      m.1 = v.1 ∧ m.2.value? d = some v.2 := by
    rintro ⟨k, x⟩ ⟨l, v⟩
    simp [and_comm]
  rw [valueMembers?_eq_mapM, mapM_eq_some]
  simp only [each]

/-- The value of an array consists of the values of its elements. -/
theorem value?_array_eq_some {d : Nat} {xs : List Json} {v : Json} :
    (array xs).value? (d + 1) = some v ↔
      ∃ vs, List.Forall₂ (fun x v => x.value? d = some v) xs vs ∧ v = array vs := by
  rw [value?, Option.map_eq_some_iff]
  simp only [valueItems?_eq_some, eq_comm (b := v)]

/-- The value of an object is the table of the values of its members. -/
theorem value?_object_eq_some {d : Nat} {ms : List (String × Json)} {v : Json} :
    (object ms).value? (d + 1) = some v ↔
      ∃ vs, valueMembers? d ms = some vs ∧ v = object (Table.ofList vs).entries := by
  rw [value?, Option.map_eq_some_iff]
  simp only [sortMembers_eq_entries, eq_comm (b := v)]

theorem exists_value_of_mem {d : Nat} {ms vs : List (String × Json)}
    (pairs : List.Forall₂ (fun m v => m.1 = v.1 ∧ m.2.value? d = some v.2) ms vs)
    {m : String × Json} (hm : m ∈ ms) : ∃ v, m.2.value? d = some v := by
  obtain ⟨i, hi, rfl⟩ := List.getElem_of_mem hm
  exact ⟨_, (pairs.get hi (pairs.length_eq ▸ hi)).2⟩

/-- Under each key stands the value of the last member with the key. -/
theorem get?_of_valueMembers? {d : Nat} {ms vs : List (String × Json)} {k : String}
    (h : valueMembers? d ms = some vs) :
    (Table.ofList vs).get? k = ((Table.ofList ms).get? k).bind (value? d) := by
  have pairs := valueMembers?_eq_some.1 h
  clear h
  induction pairs with
  | nil => rfl
  | @cons m v ms vs same pairs ih =>
    obtain ⟨l, x⟩ := m
    obtain ⟨l', y⟩ := v
    obtain ⟨rfl, value⟩ : l = l' ∧ x.value? d = some y := same
    rw [Table.get?_ofList_cons, Table.get?_ofList_cons, ih]
    cases last : (Table.ofList ms).get? k with
    | none =>
      by_cases here : k = l
      · simp [here, value]
      · simp [here]
    | some z =>
      obtain ⟨w, value⟩ := exists_value_of_mem pairs (Table.mem_of_get?_ofList last)
      simp [value]

/-- **What stands under a key of the value of an object.** -/
theorem get?_of_value? {d : Nat} {ms : List (String × Json)} {v : Json} {k : String}
    (h : (object ms).value? (d + 1) = some v) :
    v.get? k = ((object ms).get? k).bind (value? d) := by
  obtain ⟨vs, members, rfl⟩ := value?_object_eq_some.1 h
  rw [get?_object_entries, get?_of_valueMembers? members, get?]

/-- Whether a document is a value already, and nests at most `d` deep. -/
def IsValue (d : Nat) (x : Json) : Prop := x.value? d = some x

theorem valueMembers?_of_isValue {d : Nat} {ms : List (String × Json)}
    (H : ∀ m ∈ ms, m.2.IsValue d) : valueMembers? d ms = some ms :=
  valueMembers?_eq_some.2 (List.forall₂_same.2 fun m hm => ⟨rfl, H m hm⟩)

/-- An array of values is a value. -/
theorem isValue_array {d : Nat} {xs : List Json} (H : ∀ x ∈ xs, x.IsValue d) :
    (array xs).IsValue (d + 1) :=
  value?_array_eq_some.2 ⟨xs, List.forall₂_same.2 H, rfl⟩

/-- A table of values is a value. -/
theorem isValue_entries {d : Nat} {t : Table String Json}
    (H : ∀ k v, t.get? k = some v → v.IsValue d) : (object t.entries).IsValue (d + 1) := by
  have values : ∀ m ∈ t.entries, m.2.IsValue d :=
    fun m hm => H m.1 m.2 (Table.get?_eq_some_iff.2 hm)
  refine value?_object_eq_some.2 ⟨t.entries, valueMembers?_of_isValue values, ?_⟩
  rw [Table.ofList_entries]

/-- **The value of a document is a value.** -/
theorem isValue_of_value? {d : Nat} {x v : Json} (h : x.value? d = some v) : v.IsValue d := by
  induction d generalizing x v with
  | zero =>
    cases x with
    | null | bool | number | string =>
      obtain rfl := Option.some.inj h
      rfl
    | array | object | broken => simp [value?] at h
  | succ d ih =>
    cases x with
    | null | bool | number | string =>
      obtain rfl := Option.some.inj h
      rfl
    | broken => simp [value?] at h
    | array items =>
      obtain ⟨vs, pairs, rfl⟩ := value?_array_eq_some.1 h
      refine isValue_array fun v hv => ?_
      obtain ⟨i, hi, rfl⟩ := List.getElem_of_mem hv
      exact ih (pairs.get (pairs.length_eq ▸ hi) hi)
    | object members =>
      obtain ⟨vs, members, rfl⟩ := value?_object_eq_some.1 h
      refine isValue_entries fun k v found => ?_
      rw [get?_of_valueMembers? members] at found
      obtain ⟨x, -, value⟩ := Option.bind_eq_some_iff.1 found
      exact ih value

/-! ## Members that are kept -/

/-- Members that are none of the known ones, with values within a depth. -/
def AreOthers (known : List String) (d : Nat) (t : Table String Json) : Prop :=
  ∀ k v, t.get? k = some v → k ∉ known ∧ v.IsValue d

/-- Under a known key stands nothing else. -/
theorem AreOthers.get?_eq_none {known : List String} {d : Nat} {t : Table String Json} {k : String}
    (H : AreOthers known d t) (mem : k ∈ known) : t.get? k = none :=
  Option.eq_none_iff_forall_ne_some.2 fun v found => (H k v found).1 mem

/-- **The members that are kept** are those that are not known, each with its value. -/
theorem get?_of_others? {known : List String} {d : Nat} {ms : List (String × Json)}
    {t : Table String Json} {k : String} (h : others? known d ms = some t) :
    t.get? k = if k ∈ known then none else ((Table.ofList ms).get? k).bind (value? d) := by
  obtain ⟨vs, values, rfl⟩ := Option.map_eq_some_iff.1 h
  rw [get?_of_valueMembers? values, Table.get?_ofList_filter (p := fun k => decide (k ∉ known))]
  by_cases mem : k ∈ known <;> simp [mem]

/-- Each of them has a value. -/
theorem exists_value_of_others? {known : List String} {d : Nat} {ms : List (String × Json)}
    {t : Table String Json} {k : String} {v : Json} (h : others? known d ms = some t)
    (unknown : k ∉ known) (found : (Table.ofList ms).get? k = some v) :
    ∃ w, v.value? d = some w ∧ t.get? k = some w := by
  obtain ⟨vs, values, -⟩ := Option.map_eq_some_iff.1 h
  have mem : (k, v) ∈ ms.filter fun m => m.1 ∉ known :=
    List.mem_filter.2 ⟨Table.mem_of_get?_ofList found, by simpa using unknown⟩
  obtain ⟨w, value⟩ := exists_value_of_mem (valueMembers?_eq_some.1 values) mem
  refine ⟨w, value, ?_⟩
  rw [get?_of_others? h, if_neg unknown, found, Option.bind_some, value]

theorem areOthers_of_others? {known : List String} {d : Nat} {ms : List (String × Json)}
    {t : Table String Json} (h : others? known d ms = some t) : AreOthers known d t := by
  intro k v found
  rw [get?_of_others? h] at found
  split at found
  · contradiction
  · rename_i unknown
    obtain ⟨x, -, value⟩ := Option.bind_eq_some_iff.1 found
    exact ⟨unknown, isValue_of_value? value⟩

/-- Members that were kept are kept again, whatever known members stand beside them. -/
theorem others?_entries {known : List String} {d : Nat} {t u : Table String Json}
    (apart : AreOthers known d u) (H : ∀ k ∉ known, t.get? k = u.get? k) :
    others? known d t.entries = some u := by
  have kept : Table.ofList (t.entries.filter fun m => m.1 ∉ known) = u := by
    refine Table.ext_get? fun k => ?_
    rw [Table.get?_ofList_filter (p := fun k => decide (k ∉ known)), Table.ofList_entries]
    by_cases mem : k ∈ known
    · simp [mem, apart.get?_eq_none mem]
    · simpa [mem] using H k mem
  have values : ∀ m ∈ t.entries.filter fun m => m.1 ∉ known, m.2.IsValue d := by
    intro m hm
    obtain ⟨mem, unknown⟩ := List.mem_filter.1 hm
    have found := (H m.1 (by simpa using unknown)).symm.trans (Table.get?_eq_some_iff.2 mem)
    exact (apart _ _ found).2
  rw [others?, valueMembers?_of_isValue values, Option.map_some, kept]

end Json

end LeasePool
