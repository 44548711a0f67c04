import LeasePool.Proofs.Json.Values

/-!
# Layouts of a value

Whoever sends a value is free to choose the order of the members of its objects. Only a repeated
key would leave open what is meant. So a document shows a value if no object in it repeats a key
and it has that value, and what is read from such a document is what is read from the value.

## Main definitions

* `Json.hasDistinctKeys`: no object in the document repeats a key.
* `Json.Shows`: the document is a layout of a value.

## Main statements

* `Json.shows_array`, `Json.shows_entries`: layouts of arrays and of tables.
* `Json.Shows.single?`: what stands under a key of a layout.
* `Json.Shows.others?`: what is kept of the members of a layout.
-/

namespace LeasePool.Json

mutual
/-- Whether no object in the document repeats a key. -/
def hasDistinctKeys : Json → Bool
  | .array items => itemsHaveDistinctKeys items
  | .object members =>
    decide (members.map (·.1)).Nodup && membersHaveDistinctKeys members
  | _ => true
/-- Whether no object in the elements of an array repeats a key. -/
def itemsHaveDistinctKeys : List Json → Bool
  | [] => true
  | x :: xs => hasDistinctKeys x && itemsHaveDistinctKeys xs
/-- Whether no object in the members of an object repeats a key. -/
def membersHaveDistinctKeys : List (String × Json) → Bool
  | [] => true
  | (_, x) :: ms => hasDistinctKeys x && membersHaveDistinctKeys ms
end

/-- A document that has the value `v` and repeats no key. -/
structure Shows (d : Nat) (x v : Json) : Prop where
  distinct : x.hasDistinctKeys = true
  value : x.value? d = some v

variable {d : Nat} {x v : Json} {k : String}

/-! ## Layouts by constructor -/

theorem itemsHaveDistinctKeys_iff {xs : List Json} :
    itemsHaveDistinctKeys xs = true ↔ ∀ x ∈ xs, x.hasDistinctKeys = true := by
  induction xs with
  | nil => simp [itemsHaveDistinctKeys]
  | cons x xs ih => simp [itemsHaveDistinctKeys, ih]

theorem membersHaveDistinctKeys_iff {ms : List (String × Json)} :
    membersHaveDistinctKeys ms = true ↔ ∀ m ∈ ms, m.2.hasDistinctKeys = true := by
  induction ms with
  | nil => simp [membersHaveDistinctKeys]
  | cons m ms ih =>
    obtain ⟨k, x⟩ := m
    simp only [membersHaveDistinctKeys, Bool.and_eq_true, ih, List.forall_mem_cons]

/-- A layout of an array shows its elements one by one. -/
theorem shows_array {xs : List Json} :
    (array xs).Shows (d + 1) v ↔ ∃ vs, v = .array vs ∧ List.Forall₂ (Shows d) xs vs := by
  constructor
  · rintro ⟨distinct, value⟩
    obtain ⟨vs, pairs, rfl⟩ := value?_array_eq_some.1 value
    rw [hasDistinctKeys, itemsHaveDistinctKeys_iff] at distinct
    refine ⟨vs, rfl, ?_⟩
    rw [List.forall₂_iff_get] at pairs ⊢
    exact ⟨pairs.1, fun i h h' => ⟨distinct _ (List.get_mem _ _), pairs.2 i h h'⟩⟩
  · rintro ⟨vs, rfl, pairs⟩
    constructor
    · rw [hasDistinctKeys, itemsHaveDistinctKeys_iff]
      intro x hx
      obtain ⟨i, hi, rfl⟩ := List.getElem_of_mem hx
      exact (pairs.get hi (pairs.length_eq ▸ hi)).distinct
    · exact value?_array_eq_some.2 ⟨vs, pairs.imp fun _ _ h => h.value, rfl⟩

/-- Under a key that is not repeated stands what is found there. -/
theorem single?_eq_get? {ms : List (String × Json)} (distinct : (ms.map (·.1)).Nodup) :
    single? ms k = some ((Table.ofList ms).get? k) := by
  induction ms with
  | nil => rfl
  | cons m ms ih =>
    obtain ⟨l, x⟩ := m
    rw [List.map_cons, List.nodup_cons] at distinct
    obtain ⟨first, distinct⟩ := distinct
    by_cases same : l = k
    · subst same
      have alone : ms.filter (fun m => m.1 = l) = [] := by
        refine List.filter_eq_nil_iff.2 fun m hm same => first ?_
        exact List.mem_map.2 ⟨m, hm, of_decide_eq_true same⟩
      rw [single?, List.filter_cons_of_pos (by simp), alone, Table.get?_ofList_cons,
        Table.get?_ofList_eq_none first]
      simp
    · rw [single?, List.filter_cons_of_neg (by simpa using same), ← single?, ih distinct,
        Table.get?_ofList_cons]
      simp [Ne.symm same]

/-- What stands alone under a key is found there. -/
theorem get?_of_single? {ms : List (String × Json)} {o : Option Json} (h : single? ms k = some o) :
    (Table.ofList ms).get? k = o := by
  have found : (Table.ofList (ms.filter fun m => m.1 = k)).get? k = (Table.ofList ms).get? k := by
    rw [Table.get?_ofList_filter (p := fun l => decide (l = k))]
    simp
  rw [← found]
  rw [single?] at h
  split at h
  · rename_i none
    rw [none, ← Option.some.inj h]
    rfl
  · rename_i m one
    have same : m.1 = k := by
      have mem : m ∈ ms.filter fun m => m.1 = k := by rw [one]; exact List.mem_singleton_self m
      exact of_decide_eq_true (List.mem_filter.1 mem).2
    rw [one, Table.get?_ofList_cons, if_pos same.symm, ← Option.some.inj h]
    rfl
  · contradiction

/-- The fields of an object stand under their names. -/
theorem eq_map_of_record? {names : List String} {ms : List (String × Json)}
    {fields : List (Option Json)} (h : (object ms).record? names = some fields) :
    fields = names.map fun k => (object ms).get? k := by
  have each : List.Forall₂ (fun k o => single? ms k = some o) names fields := mapM_eq_some.1 h
  rw [eq_comm, ← List.forall₂_eq_eq_eq, List.forall₂_map_left_iff]
  exact each.imp fun k o single => get?_of_single? single

/-- Each member is found under its key, unless the key is repeated. -/
theorem get?_of_mem {ms : List (String × Json)} {m : String × Json}
    (distinct : (ms.map (·.1)).Nodup) (hm : m ∈ ms) : (Table.ofList ms).get? m.1 = some m.2 := by
  induction ms with
  | nil => contradiction
  | cons n ms ih =>
    obtain ⟨l, x⟩ := n
    rw [List.map_cons, List.nodup_cons] at distinct
    obtain ⟨first, distinct⟩ := distinct
    rw [Table.get?_ofList_cons]
    rcases List.mem_cons.1 hm with rfl | hm
    · rw [Table.get?_ofList_eq_none first, if_pos rfl, Option.none_or]
    · rw [ih distinct hm, Option.some_or]

/-- **The members of an object are its fields**, unless a key is repeated. -/
theorem fields?_members {ms : List (String × Json)} (distinct : (ms.map (·.1)).Nodup) :
    fields? (ms.map (·.1)) (object ms) = some (ms.map fun m => some m.2) := by
  have each : ∀ m ∈ ms, single? ms m.1 = some (some m.2) := fun m hm => by
    rw [single?_eq_get? distinct, get?_of_mem distinct hm]
  rw [fields?, mapM_eq_some, List.forall₂_map_left_iff, List.forall₂_map_right_iff]
  exact List.forall₂_same.2 each

/-- A 32-bit integer is read as it was written. -/
theorem int32?_int (n : Int32) : int32? (.int n.toInt) = some n := by
  have bound : -Int.pow 2 31 ≤ n.toInt ∧ n.toInt < Int.pow 2 31 :=
    ⟨Int32.le_toInt n, Int32.toInt_lt n⟩
  rw [int, int32?, integer?, if_pos bound, Option.map_some, Int32.ofInt_toInt]

/-- The keys of a table are distinct. -/
theorem nodup_keys {t : Table String Json} : (t.entries.map (·.1)).Nodup :=
  List.pairwise_map.2 (t.ascending.imp fun {a b} below same => by
    rw [same] at below
    exact Key.lt_irrefl b.1 below)

/-- **Under each key of a layout** stands a layout of what the value has there. -/
theorem Shows.single? {ms : List (String × Json)} (H : (object ms).Shows (d + 1) v) :
    ∃ o, Json.single? ms k = some o ∧ Option.Rel (Shows d) o (v.get? k) := by
  obtain ⟨distinct, value⟩ := H
  rw [hasDistinctKeys, Bool.and_eq_true, decide_eq_true_eq, membersHaveDistinctKeys_iff]
    at distinct
  refine ⟨_, single?_eq_get? distinct.1, ?_⟩
  rw [get?_of_value? value, get?]
  obtain ⟨vs, members, -⟩ := value?_object_eq_some.1 value
  cases found : (Table.ofList ms).get? k with
  | none => exact .none
  | some x =>
    have mem := Table.mem_of_get?_ofList found
    obtain ⟨w, here⟩ := exists_value_of_mem (valueMembers?_eq_some.1 members) mem
    rw [Option.bind_some, here]
    exact .some ⟨distinct.2 _ mem, here⟩

/-- A member of the value is somewhere in its layouts. -/
theorem Shows.exists_member {ms : List (String × Json)} {w : Json}
    (H : (object ms).Shows (d + 1) v) (found : v.get? k = some w) :
    ∃ y, (Table.ofList ms).get? k = some y ∧ y.Shows d w := by
  obtain ⟨o, single, listed⟩ := H.single? (k := k)
  rw [found] at listed
  rw [get?_of_single? single]
  cases listed with
  | some h => exact ⟨_, rfl, h⟩

/-- Layouts have no other member than the value. -/
theorem Shows.get?_eq_none {ms : List (String × Json)} (H : (object ms).Shows (d + 1) v)
    (absent : v.get? k = none) : (Table.ofList ms).get? k = none := by
  obtain ⟨o, single, listed⟩ := H.single? (k := k)
  rw [absent] at listed
  rw [get?_of_single? single]
  cases listed with
  | none => rfl

/-- **What is kept of the members of a layout** is what the value has beside the known ones. -/
theorem Shows.others? {ms : List (String × Json)} {known : List String} {t : Table String Json}
    (H : (object ms).Shows (d + 1) v) (plain : ∀ k ∈ known, t.get? k = none)
    (kept : ∀ k ∉ known, v.get? k = t.get? k) : Json.others? known d ms = some t := by
  obtain ⟨vs, members, -⟩ := value?_object_eq_some.1 H.value
  have pairs := valueMembers?_eq_some.1 members
  obtain ⟨us, others⟩ : ∃ us, valueMembers? d (ms.filter fun m => m.1 ∉ known) = some us := by
    have values : ∀ m ∈ ms.filter fun m => m.1 ∉ known, ∃ v, m.2.value? d = some v :=
      fun m hm => exists_value_of_mem pairs (List.mem_filter.1 hm).1
    generalize ms.filter (fun m => m.1 ∉ known) = ns at values
    induction ns with
    | nil => exact ⟨[], rfl⟩
    | cons n ns ih =>
      obtain ⟨k, x⟩ := n
      obtain ⟨⟨w, here⟩, later⟩ := List.forall_mem_cons.1 values
      obtain ⟨us, rest⟩ := ih later
      refine ⟨(k, w) :: us, ?_⟩
      rw [valueMembers?, here, rest]
      rfl
  have read : Json.others? known d ms = some (Table.ofList us) := by
    rw [Json.others?, others, Option.map_some]
  rw [read]
  refine congrArg some (Table.ext_get? fun k => ?_)
  rw [get?_of_others? read]
  split
  · rename_i mem
    rw [plain k mem]
  · rename_i unknown
    rw [← kept k unknown, get?_of_value? H.value, get?]

/-- A layout of an object is an object. -/
theorem Shows.exists_members {vs : List (String × Json)} (H : x.Shows d (.object vs)) :
    ∃ e ms, d = e + 1 ∧ x = .object ms := by
  have value := H.value
  cases x with
  | null | bool | number | string | broken => simp [value?] at value
  | array xs => cases d <;> simp [value?] at value
  | object ms =>
    cases d with
    | zero => simp [value?] at value
    | succ e => exact ⟨e, ms, rfl, rfl⟩

/-- A value with a member is an object, and so are its layouts. -/
theorem Shows.exists_members_of_get? {w : Json} (H : x.Shows d v) (found : v.get? k = some w) :
    ∃ e ms, d = e + 1 ∧ x = .object ms := by
  cases v with
  | object vs => exact H.exists_members
  | null | bool | number | string | array | broken => contradiction

/-- A layout of an array is an array. -/
theorem Shows.exists_items {vs : List Json} (H : x.Shows d (.array vs)) :
    ∃ e xs, d = e + 1 ∧ x = .array xs ∧ List.Forall₂ (Shows e) xs vs := by
  have value := H.value
  cases x with
  | null | bool | number | string | broken => simp [value?] at value
  | object ms => cases d <;> simp [value?] at value
  | array xs =>
    cases d with
    | zero => simp [value?] at value
    | succ e =>
      obtain ⟨vs', same, pairs⟩ := shows_array.1 H
      obtain rfl := Json.array.inj same
      exact ⟨e, xs, rfl, rfl, pairs⟩

/-- Whether a document is a single value. -/
def isScalar : Json → Bool
  | .array _ | .object _ | .broken => false
  | _ => true

/-- There is only one layout of a single value. -/
theorem Shows.eq_of_isScalar (H : x.Shows d v) (scalar : v.isScalar = true) : x = v := by
  have value := H.value
  cases x with
  | null | bool | number | string => exact Option.some.inj value
  | broken => simp [value?] at value
  | array xs =>
    cases d with
    | zero => simp [value?] at value
    | succ d =>
      obtain ⟨vs, rfl, -⟩ := shows_array.1 H
      contradiction
  | object ms =>
    cases d with
    | zero => simp [value?] at value
    | succ d =>
      obtain ⟨vs, -, rfl⟩ := Option.map_eq_some_iff.1 value
      contradiction

/-! ## Layouts within any depth -/

/-- The document is a layout of the value, however deep that nests. -/
def Lists (x v : Json) : Prop := ∃ d, x.Shows d v

theorem Shows.lists (H : x.Shows d v) : x.Lists v := ⟨d, H⟩

theorem rel_lists {o p : Option Json} (H : Option.Rel (Shows d) o p) : Option.Rel Lists o p := by
  cases H with
  | none => exact .none
  | some h => exact .some h.lists

theorem Lists.eq_of_isScalar (H : x.Lists v) (scalar : v.isScalar = true) : x = v := by
  obtain ⟨d, H⟩ := H
  exact H.eq_of_isScalar scalar

theorem Lists.exists_items {vs : List Json} (H : x.Lists (.array vs)) :
    ∃ xs, x = .array xs ∧ List.Forall₂ Lists xs vs := by
  obtain ⟨d, H⟩ := H
  obtain ⟨e, xs, -, rfl, pairs⟩ := H.exists_items
  exact ⟨xs, rfl, pairs.imp fun _ _ h => h.lists⟩

theorem Lists.exists_members {vs : List (String × Json)} (H : x.Lists (.object vs)) :
    ∃ ms, x = .object ms := by
  obtain ⟨d, H⟩ := H
  obtain ⟨-, ms, -, rfl⟩ := H.exists_members
  exact ⟨ms, rfl⟩

theorem Lists.exists_shows {ms : List (String × Json)} (H : (object ms).Lists v) :
    ∃ d, (object ms).Shows (d + 1) v := by
  obtain ⟨d, H⟩ := H
  cases d with
  | zero =>
    have value := H.value
    simp [value?] at value
  | succ d => exact ⟨d, H⟩

theorem Lists.nodup_keys {ms : List (String × Json)} (H : (object ms).Lists v) :
    (ms.map (·.1)).Nodup := by
  obtain ⟨d, H⟩ := H
  have distinct := H.distinct
  rw [hasDistinctKeys, Bool.and_eq_true, decide_eq_true_eq] at distinct
  exact distinct.1

/-- A layout of an object has a layout of each member. -/
theorem Lists.get? {ms : List (String × Json)} (H : (object ms).Lists v) :
    Option.Rel Lists ((Table.ofList ms).get? k) (v.get? k) := by
  obtain ⟨d, shows⟩ := H.exists_shows
  obtain ⟨o, found, listed⟩ := shows.single? (k := k)
  rw [single?_eq_get? H.nodup_keys] at found
  rw [Option.some.inj found]
  exact rel_lists listed

/-! ## Values as layouts -/

/-- A single value shows itself. -/
theorem shows_scalar (scalar : v.isScalar = true) : v.Shows d v := by
  cases v with
  | null | bool | number | string => exact ⟨rfl, by rw [value?]⟩
  | array | object | broken => contradiction

theorem lists_scalar (scalar : v.isScalar = true) : v.Lists v := ⟨0, shows_scalar scalar⟩

/-- A row of values that show themselves does so, too. -/
theorem shows_items {xs : List Json} (H : ∀ x ∈ xs, x.Shows d x) :
    (array xs).Shows (d + 1) (.array xs) :=
  shows_array.2 ⟨xs, rfl, List.forall₂_same.2 H⟩

/-- A table of values that show themselves does so, too. -/
theorem shows_entries {t : Table String Json} (H : ∀ k v, t.get? k = some v → v.Shows d v) :
    (object t.entries).Shows (d + 1) (.object t.entries) where
  distinct := by
    rw [hasDistinctKeys, Bool.and_eq_true, decide_eq_true_eq, membersHaveDistinctKeys_iff]
    exact ⟨nodup_keys, fun m hm => (H m.1 m.2 (Table.get?_eq_some_iff.2 hm)).distinct⟩
  value := isValue_entries fun k v found => (H k v found).value

theorem shows_ofMembers {ms : List (String × Json)} (H : ∀ m ∈ ms, m.2.Shows d m.2) :
    (ofMembers ms).Shows (d + 1) (ofMembers ms) := by
  rw [ofMembers_eq_object]
  exact shows_entries fun k v found => H (k, v) (Table.mem_of_get?_ofList found)

theorem forall_mem_member {α : Type} {key : String} {write : α → Json} {o : Option α}
    {p : String × Json → Prop} (H : ∀ a, p (key, write a)) : ∀ m ∈ member key write o, p m := by
  cases o with
  | none => exact List.forall_mem_nil _
  | some a => exact List.forall_mem_singleton.2 (H a)

end LeasePool.Json
