import LeasePool.Lease.Codec
import LeasePool.Proofs.Json.Layout
import LeasePool.Proofs.Time.Stamps

/-!
# Leases are read as they are written

Every member that is written is read again as what it was written for, whether it stands where it
was written or somewhere else in the object. An absent member and the value that its absence
stands for are the same thing; times lose what is beyond the microsecond; and the members that
have no meaning come back because none of them has the key of one that does.
-/

namespace LeasePool

open Json

/-! ## Fields -/

namespace Json

variable {α β : Type} {o : Option Json}

/-- How a field is read that has to be there. -/
theorem required?_of_lists {read : Json → Option α} {a : α} {v : Json}
    (H : ∀ x, x.Lists v → read x = some a) (listed : Option.Rel Lists o (some v)) :
    required? read o = some a := by
  cases listed with
  | some h => exact H _ h

theorem required?_text {s : String} (listed : Option.Rel Lists o (some (.string s))) :
    required? string? o = some s :=
  required?_of_lists (fun x h => by rw [h.eq_of_isScalar rfl]; rfl) listed

theorem eq_string_of_required? {s : String} (read : required? string? o = some s) :
    o = some (.string s) := by
  obtain ⟨x, rfl, text⟩ := Option.bind_eq_some_iff.1 read
  cases x with
  | string => rw [Option.some.inj text]
  | null | bool | number | array | object | broken => contradiction

/-- How a field is read that is not written if there is no value for it. -/
theorem defaulted?_of_lists {write : α → Json} {read : Json → Option (Option β)} {f : α → β}
    {a : Option α} (H : ∀ b x, a = some b → x.Lists (write b) → read x = some (some (f b)))
    (listed : Option.Rel Lists o (a.map write)) : defaulted? none read o = some (a.map f) := by
  cases a with
  | none =>
    cases listed
    rfl
  | some b =>
    cases listed with
    | some h => exact H b _ rfl h

/-- How a field is read that is not written for the value that its absence stands for. -/
theorem defaulted?_of_lists_unless {c : Prop} [Decidable c] {read : Json → Option α}
    {fallback a : α} {v : Json} (absent : c → a = fallback)
    (H : ∀ x, x.Lists v → read x = some a)
    (listed : Option.Rel Lists o (if c then none else some v)) :
    defaulted? fallback read o = some a := by
  split at listed
  · rename_i h
    cases listed
    rw [absent h]
    rfl
  · cases listed with
    | some h => exact H _ h

/-- How a field with a single value is read. -/
theorem defaulted?_of_lists_scalar {write : α → Json} {read : Json → Option α} {a : Option α}
    (scalar : ∀ b, (write b).isScalar = true ∧ orNull? read (write b) = some (some b))
    (listed : Option.Rel Lists o (a.map write)) :
    defaulted? none (orNull? read) o = some a := by
  have each : ∀ b x, a = some b → x.Lists (write b) → orNull? read x = some (some (id b)) := by
    intro b x _ h
    rw [h.eq_of_isScalar (scalar b).1]
    exact (scalar b).2
  rw [defaulted?_of_lists each listed, Option.map_id, id_eq]

/-- The elements of an array are read one by one. -/
theorem mapM_of_lists {write : α → Json} {read : Json → Option α} {as : List α} {xs : List Json}
    (H : ∀ a x, x.Lists (write a) → read x = some a)
    (listed : List.Forall₂ Lists xs (as.map write)) : xs.mapM read = some as :=
  mapM_eq_some.2 ((List.forall₂_map_right_iff.1 listed).imp fun x a h => H a x h)

/-- What is written of each value lists itself. -/
theorem rel_lists_map {write : α → Json} {a : Option α} (H : ∀ b, (write b).Lists (write b)) :
    Option.Rel Lists (a.map write) (a.map write) := by
  cases a with
  | none => exact .none
  | some b => exact .some (H b)

theorem rel_lists_unless {c : Prop} [Decidable c] {v : Json} (H : v.Lists v) :
    Option.Rel Lists (if c then none else some v) (if c then none else some v) := by
  split
  · exact .none
  · exact .some H

/-- There is only one layout of a text. -/
theorem eq_of_rel_texts {a b : Option String}
    (listed : Option.Rel Lists (a.map .string) (b.map .string)) : a = b := by
  cases a with
  | none =>
    cases b with
    | none => rfl
    | some t => contradiction
  | some s =>
    cases b with
    | none => contradiction
    | some t =>
      cases listed with
      | some h => rw [Json.string.inj (h.eq_of_isScalar rfl)]

end Json

/-! ## Labels -/

namespace Labels

/-- The members for some labels. -/
def members (es : List (String × String)) : List (String × Json) :=
  es.map fun e => (e.1, .string e.2)

theorem get?_members {es : List (String × String)} {k : String} :
    (Table.ofList (members es)).get? k = ((Table.ofList es).get? k).map .string := by
  induction es with
  | nil => rfl
  | cons e es ih =>
    obtain ⟨l, w⟩ := e
    rw [members, List.map_cons, ← members, Table.get?_ofList_cons, Table.get?_ofList_cons, ih]
    cases (Table.ofList es).get? k with
    | some w => rfl
    | none => by_cases same : k = l <;> simp [same]

/-- Labels are written one by one. -/
theorem get?_encode {labels : Labels} {k : String} :
    labels.encode.get? k = (labels.get? k).map .string := by
  rw [encode, ← members, Json.get?, get?_members, Table.ofList_entries]

theorem decode?_members {es : List (String × String)} :
    Labels.decode? (.object (members es)) = some (Table.ofList es) := by
  have texts : (members es).mapM (fun m => (m.2.string?).map fun value => (m.1, value)) =
      some es := by
    induction es with
    | nil => rfl
    | cons e es ih =>
      rw [members, List.map_cons, ← members, List.mapM_cons, ih]
      rfl
  rw [decode?, texts]
  rfl

/-- Members that are texts are those of some labels. -/
theorem exists_eq_members {ms : List (String × Json)} (texts : ∀ m ∈ ms, ∃ s, m.2 = .string s) :
    ∃ es, ms = members es := by
  induction ms with
  | nil => exact ⟨[], rfl⟩
  | cons m ms ih =>
    obtain ⟨k, x⟩ := m
    obtain ⟨⟨s, here⟩, later⟩ := List.forall_mem_cons.1 texts
    obtain ⟨es, rfl⟩ := ih later
    obtain rfl : x = .string s := here
    exact ⟨(k, s) :: es, rfl⟩

/-- What is read as labels are members of labels. -/
theorem eq_members_of_mapM {ms : List (String × Json)} {es : List (String × String)}
    (h : ms.mapM (fun m => (m.2.string?).map fun value => (m.1, value)) = some es) :
    ms = members es := by
  have each : ∀ (m : String × Json) (e : String × String),
      (m.2.string?).map (fun value => (m.1, value)) = some e → m = (e.1, .string e.2) := by
    rintro ⟨k, x⟩ e read
    obtain ⟨s, text, rfl⟩ := Option.map_eq_some_iff.1 read
    cases x with
    | string => rw [← Option.some.inj text]
    | null | bool | number | array | object | broken => contradiction
  have same := (mapM_eq_some.1 h).imp each
  rw [← List.forall₂_eq_eq_eq, members, List.forall₂_map_right_iff]
  exact same

/-- What is read as labels has each label under its key. -/
theorem get?_of_decode? {x : Json} {labels : Labels} {k : String}
    (read : Labels.decode? x = some labels) : x.get? k = (labels.get? k).map .string := by
  cases x with
  | null | bool | number | string | array | broken => contradiction
  | object ms =>
    obtain ⟨es, each, rfl⟩ : ∃ es, _ = some es ∧ Table.ofList es = labels := by
      simpa only [decode?, Option.bind_eq_bind, Option.bind_eq_some_iff, Option.pure_def,
        Option.some.injEq] using read
    rw [eq_members_of_mapM each, Json.get?, get?_members]

/-- The members of written labels are a table. -/
theorem shows_encode {labels : Labels} : labels.encode.Shows 1 labels.encode := by
  have ascending : (labels.entries.map fun e => (e.1, Json.string e.2)).Pairwise
      fun a b => a.1 < b.1 := List.pairwise_map.2 labels.ascending
  have table : labels.encode = .object (⟨_, ascending⟩ : Table String Json).entries := rfl
  rw [table]
  refine shows_entries fun k v found => ?_
  rw [← get?_object_entries, ← table, get?_encode, Option.map_eq_some_iff] at found
  obtain ⟨s, -, rfl⟩ := found
  exact shows_scalar rfl

/-- **Labels are read as they are written**, in whatever order. -/
theorem decode?_of_lists {labels : Labels} {x : Json} (H : x.Lists labels.encode) :
    Labels.decode? x = some labels := by
  obtain ⟨ms, rfl⟩ := H.exists_members
  have each : ∀ k, Option.Rel Lists ((Table.ofList ms).get? k) ((labels.get? k).map .string) := by
    intro k
    rw [← get?_encode]
    exact H.get?
  have texts : ∀ m ∈ ms, ∃ s, m.2 = .string s := by
    intro m hm
    have here := each m.1
    rw [get?_of_mem H.nodup_keys hm] at here
    cases found : labels.get? m.1 with
    | none =>
      rw [found] at here
      contradiction
    | some s =>
      rw [found] at here
      cases here with
      | some h => exact ⟨s, h.eq_of_isScalar rfl⟩
  obtain ⟨es, rfl⟩ := exists_eq_members texts
  rw [decode?_members]
  refine congrArg some (Table.ext_get? fun k => eq_of_rel_texts ?_)
  rw [← get?_members]
  exact each k

end Labels

/-! ## Owner references -/

namespace OwnerReference

/-- What is written of an owner reference. -/
theorem get?_encode {o : OwnerReference} {k : String} : o.encode.get? k =
    if k = "controller" then o.controller.map .bool
    else if k = "uid" then some (.string o.uid)
    else if k = "name" then some (.string o.name)
    else if k = "kind" then some (.string o.kind)
    else if k = "apiVersion" then some (.string o.apiVersion)
    else none := by
  rw [encode, ofMembers_eq_object, get?_object_entries]
  simp only [Table.get?_ofList_append, get?_ofList_member, Table.get?_ofList_cons,
    Table.get?_ofList_nil, Option.none_or]
  repeat' split
  all_goals simp_all

/-- What has been read of a reference to an owner. -/
theorem get?_of_decode? {ms : List (String × Json)} {o : OwnerReference}
    (read : decode? (.object ms) = some o) :
    (Json.object ms).get? "apiVersion" = some (.string o.apiVersion) ∧
      (Json.object ms).get? "kind" = some (.string o.kind) ∧
      (Json.object ms).get? "name" = some (.string o.name) ∧
      (Json.object ms).get? "uid" = some (.string o.uid) ∧
      defaulted? none (orNull? bool?) ((Json.object ms).get? "controller") = some o.controller := by
  rw [decode?, Option.bind_eq_bind, Option.bind_eq_some_iff] at read
  obtain ⟨fields, record, read⟩ := read
  rw [eq_map_of_record? record] at read
  simp only [List.map_cons, List.map_nil, Option.bind_eq_bind, Option.bind_eq_some_iff,
    Option.pure_def, Option.some.injEq] at read
  obtain ⟨_, apiVersion, _, kind, _, name, _, uid, _, controller, rfl⟩ := read
  exact ⟨eq_string_of_required? apiVersion, eq_string_of_required? kind,
    eq_string_of_required? name, eq_string_of_required? uid, controller⟩

theorem shows_encode {o : OwnerReference} : o.encode.Shows 1 o.encode := by
  refine shows_ofMembers fun m hm => ?_
  rcases List.mem_append.1 hm with text | controller
  · simp only [List.mem_cons, List.not_mem_nil, or_false] at text
    rcases text with rfl | rfl | rfl | rfl <;> exact shows_scalar rfl
  · exact forall_mem_member (p := fun m => m.2.Shows 0 m.2) (fun _ => shows_scalar rfl) m controller

/-- **Owner references are read as they are written**, in whatever order. -/
theorem decode?_of_lists {o : OwnerReference} {x : Json} (H : x.Lists o.encode) :
    decode? x = some o := by
  obtain ⟨ms, rfl⟩ : ∃ ms, x = .object ms := by
    rw [encode, ofMembers_eq_object] at H
    exact H.exists_members
  have each : ∀ k, Option.Rel Lists ((Table.ofList ms).get? k) (o.encode.get? k) := fun k => H.get?
  have apiVersion := each "apiVersion"
  have kind := each "kind"
  have name := each "name"
  have uid := each "uid"
  have controller := each "controller"
  simp only [get?_encode, String.reduceEq, if_true, if_false] at apiVersion kind name uid controller
  have controller : defaulted? none (orNull? bool?) ((Table.ofList ms).get? "controller") =
      some o.controller := defaulted?_of_lists_scalar (fun _ => ⟨rfl, rfl⟩) controller
  simp only [decode?, record?, isLongerThan, fields?, List.mapM_cons, List.mapM_nil,
    single?_eq_get? H.nodup_keys, Bool.false_eq_true, if_false, Option.bind_eq_bind,
    Option.bind_some, Option.pure_def, required?_text apiVersion, required?_text kind,
    required?_text name, required?_text uid, controller]

end OwnerReference

/-! ## Metadata -/

namespace Metadata

variable {m : Metadata} {d : Nat}

/-- What is written of metadata. -/
theorem get?_encode {k : String} : m.encode.get? k = (m.extra.get? k).or
    (if k = "ownerReferences" then
      if m.owners.isEmpty then none else some (.array (m.owners.map OwnerReference.encode))
    else if k = "labels" then if m.labels.isEmpty then none else some m.labels.encode
    else if k = "resourceVersion" then m.version.map .string
    else if k = "uid" then m.uid.map .string
    else if k = "namespace" then if m.ns = "" then none else some (.string m.ns)
    else if k = "name" then some (.string m.name)
    else none) := by
  rw [encode, ofMembers_eq_object, get?_object_entries]
  simp only [Table.get?_ofList_append, Table.ofList_entries, get?_ofList_member, get?_ofList_unless,
    Table.get?_ofList_cons, Table.get?_ofList_nil, Option.none_or]
  congr 1
  split
  · simp only [*, String.reduceEq, if_false, Option.or_none]
  split
  · simp only [*, String.reduceEq, if_false, Option.or_none, Option.none_or]
  split
  · simp only [*, String.reduceEq, if_false, Option.or_none, Option.none_or]
  split
  · simp only [*, String.reduceEq, if_false, Option.or_none, Option.none_or]
  split
  · simp only [*, String.reduceEq, if_false, Option.or_none, Option.none_or]
  simp only [Option.none_or]

/-- Under the other keys stands what is kept. -/
theorem get?_encode_of_notMem {k : String} (unknown : k ∉ knownMembers) :
    m.encode.get? k = m.extra.get? k := by
  simp only [knownMembers, List.mem_cons, not_or] at unknown
  simp only [get?_encode, unknown, if_false, Option.or_none]

/-- No member that is kept stands under a key that metadata give a meaning to. -/
def IsPlain (m : Metadata) : Prop := ∀ k ∈ knownMembers, m.extra.get? k = none

instance : Decidable m.IsPlain :=
  inferInstanceAs (Decidable (∀ k ∈ knownMembers, m.extra.get? k = none))

/-- What is written under those keys lists itself. -/
theorem rel_lists_encode (plain : m.IsPlain) :
    ∀ k ∈ knownMembers, Option.Rel Lists (m.encode.get? k) (m.encode.get? k) := by
  have owners : (Json.array (m.owners.map OwnerReference.encode)).Lists
      (.array (m.owners.map OwnerReference.encode)) := by
    refine ⟨2, shows_items fun x hx => ?_⟩
    obtain ⟨o, -, rfl⟩ := List.mem_map.1 hx
    exact OwnerReference.shows_encode
  simp only [IsPlain, knownMembers, List.forall_mem_cons] at plain
  obtain ⟨noName, noNs, noUid, noVersion, noLabels, noOwners, -⟩ := plain
  simp only [knownMembers, List.forall_mem_cons, get?_encode, noName, noNs, noUid, noVersion,
    noLabels, noOwners, String.reduceEq, if_true, if_false, Option.none_or]
  exact ⟨.some (lists_scalar rfl), rel_lists_unless (lists_scalar rfl),
    rel_lists_map fun _ => lists_scalar rfl, rel_lists_map fun _ => lists_scalar rfl,
    rel_lists_unless Labels.shows_encode.lists, rel_lists_unless owners, List.forall_mem_nil _⟩

/-- Metadata are read from an object whose members list what is written of them. -/
theorem decode?_object {ms : List (String × Json)} (plain : m.IsPlain)
    (distinct : (ms.map (·.1)).Nodup)
    (each : ∀ k ∈ knownMembers, Option.Rel Lists ((Table.ofList ms).get? k) (m.encode.get? k))
    (kept : others? knownMembers (d - 1) ms = some m.extra) :
    decode? d (.object ms) = some m := by
  simp only [IsPlain, knownMembers, List.forall_mem_cons] at each plain
  obtain ⟨noName, noNs, noUid, noVersion, noLabels, noOwners, -⟩ := plain
  obtain ⟨name, ns, uid, version, labels, owners, -⟩ := each
  simp only [get?_encode, noName, noNs, noUid, noVersion, noLabels, noOwners, String.reduceEq,
    if_true, if_false, Option.none_or] at name ns uid version labels owners
  have ns : defaulted? "" string? ((Table.ofList ms).get? "namespace") = some m.ns :=
    defaulted?_of_lists_unless id (fun x h => by rw [h.eq_of_isScalar rfl]; rfl) ns
  have uid : defaulted? none (orNull? string?) ((Table.ofList ms).get? "uid") = some m.uid :=
    defaulted?_of_lists_scalar (fun _ => ⟨rfl, rfl⟩) uid
  have version : defaulted? none (orNull? string?) ((Table.ofList ms).get? "resourceVersion") =
      some m.version := defaulted?_of_lists_scalar (fun _ => ⟨rfl, rfl⟩) version
  have labels : defaulted? .empty Labels.decode? ((Table.ofList ms).get? "labels") =
      some m.labels :=
    defaulted?_of_lists_unless (fun empty => Table.ext (List.isEmpty_iff.1 empty))
      (fun x h => Labels.decode?_of_lists h) labels
  have owners : defaulted? [] owners? ((Table.ofList ms).get? "ownerReferences") =
      some m.owners := by
    refine defaulted?_of_lists_unless List.isEmpty_iff.1 (fun x h => ?_) owners
    obtain ⟨xs, rfl, listed⟩ := h.exists_items
    exact mapM_of_lists (fun o x h => OwnerReference.decode?_of_lists h) listed
  simp only [decode?, single?_eq_get? distinct, kept, Option.bind_eq_bind, Option.bind_some,
    Option.pure_def, required?_text name, ns, uid, version, labels, owners]

/-- What has been read of metadata: the labels, the owners and the members that are kept. -/
theorem exists_of_decode? {x : Json} (read : decode? d x = some m) :
    ∃ ms, x = .object ms ∧
      (∃ o, single? ms "labels" = some o ∧ defaulted? .empty Labels.decode? o = some m.labels) ∧
      (∃ o, single? ms "ownerReferences" = some o ∧ defaulted? [] owners? o = some m.owners) ∧
      others? knownMembers (d - 1) ms = some m.extra := by
  cases x with
  | null | bool | number | string | array | broken => contradiction
  | object ms =>
    simp only [decode?, Option.bind_eq_bind, Option.bind_eq_some_iff, Option.pure_def,
      Option.some.injEq] at read
    obtain ⟨_, -, _, -, _, -, _, -, _, -, _, -, _, -, _, -, _, labels, _, readLabels, _, owners, _,
      readOwners, _, others, rfl⟩ := read
    exact ⟨ms, rfl, ⟨_, labels, readLabels⟩, ⟨_, owners, readOwners⟩, others⟩

/-- Metadata are read as they are written. -/
theorem decode?_encode (others : AreOthers knownMembers (d - 1) m.extra) :
    decode? d m.encode = some m := by
  have plain : m.IsPlain := fun k known => others.get?_eq_none known
  obtain ⟨t, written⟩ : ∃ t : Table String Json, m.encode = .object t.entries :=
    ⟨_, ofMembers_eq_object⟩
  have found : ∀ k, t.get? k = m.encode.get? k := fun k => by rw [written, get?_object_entries]
  rw [written]
  refine decode?_object plain nodup_keys (fun k known => ?_)
    (others?_entries others fun k unknown => ?_)
  · rw [Table.ofList_entries, found]
    exact rel_lists_encode plain k known
  · rw [found, get?_encode_of_notMem unknown]

/-- **Metadata are read as they are written**, in whatever order. -/
theorem decode?_of_shows {x : Json} (plain : m.IsPlain) (H : x.Shows d m.encode) :
    decode? d x = some m := by
  obtain ⟨e, ms, rfl, rfl⟩ : ∃ e ms, d = e + 1 ∧ x = .object ms := by
    rw [encode, ofMembers_eq_object] at H
    exact H.exists_members
  exact decode?_object plain H.lists.nodup_keys (fun k _ => H.lists.get?)
    (H.others? plain fun k unknown => get?_encode_of_notMem unknown)

end Metadata

/-! ## Claims -/

/-- A time as JSON. -/
def Stamp.encode (s : Stamp) : Json := .string (String.ofList (instantText s.instant))

/-- The time that is stored is written like the time itself. -/
theorem Stamp.encode_stored (s : Stamp) : s.stored.encode = s.encode :=
  congrArg (fun cs => Json.string (String.ofList cs)) instantText_floorMicros

namespace Claim

variable {c : Claim} {d : Nat}

/-- The times of the claim are in the years 0 to 9999. -/
def HasFourDigitYears (c : Claim) : Prop :=
  (∀ s, c.acquired = some s → s.HasFourDigitYear) ∧ ∀ s, c.renewed = some s → s.HasFourDigitYear

/-- The claim as it comes back from the store. -/
def stored (c : Claim) : Claim :=
  { c with acquired := c.acquired.map Stamp.stored, renewed := c.renewed.map Stamp.stored }

/-- No member that is kept stands under a key that claims give a meaning to. -/
def IsPlain (c : Claim) : Prop := ∀ k ∈ knownMembers, c.extra.get? k = none

instance : Decidable c.IsPlain :=
  inferInstanceAs (Decidable (∀ k ∈ knownMembers, c.extra.get? k = none))

/-- A claim as JSON, if its times are in the years 0 to 9999. -/
def encode (c : Claim) : Json :=
  Json.ofMembers <| member "holderIdentity" .string c.holder
    ++ member "leaseDurationSeconds" int32 c.duration
    ++ member "acquireTime" Stamp.encode c.acquired ++ member "renewTime" Stamp.encode c.renewed
    ++ member "leaseTransitions" int32 c.transitions
    ++ c.extra.entries

theorem eq_member_of_stampMember? {key : String} {o : Option Stamp} {ms : List (String × Json)}
    (h : stampMember? key o = some ms) : ms = member key Stamp.encode o := by
  cases o with
  | none => exact (Option.some.inj h).symm
  | some s =>
    obtain ⟨text, written, rfl⟩ := Option.map_eq_some_iff.1 h
    rw [Stamp.text?, Option.ite_none_right_eq_some] at written
    obtain ⟨-, written⟩ := written
    rw [← Option.some.inj written]
    rfl

/-- There is one way to write a claim. -/
theorem eq_encode_of_encode? {y : Json} (h : c.encode? = some y) : y = c.encode := by
  simp only [encode?, Option.bind_eq_bind, Option.bind_eq_some_iff, Option.pure_def,
    Option.some.injEq] at h
  obtain ⟨acquired, writtenAcquired, renewed, writtenRenewed, rfl⟩ := h
  rw [eq_member_of_stampMember? writtenAcquired, eq_member_of_stampMember? writtenRenewed, encode]

theorem stampMember?_eq {key : String} {o : Option Stamp}
    (H : ∀ s, o = some s → s.HasFourDigitYear) :
    stampMember? key o = some (member key Stamp.encode o) := by
  cases o with
  | none => rfl
  | some s =>
    rw [stampMember?, (H s rfl).text?_eq]
    rfl

/-- **Claims with times in the years 0 to 9999 are written.** -/
theorem encode?_eq (H : c.HasFourDigitYears) : c.encode? = some c.encode := by
  rw [encode?, stampMember?_eq H.1, stampMember?_eq H.2]
  rfl

/-- The claim that is stored is written like the claim itself. -/
theorem encode_stored : c.stored.encode = c.encode := by
  have same : ∀ (key : String) (o : Option Stamp),
      member key Stamp.encode (o.map Stamp.stored) = member key Stamp.encode o := by
    intro key o
    cases o with
    | none => rfl
    | some s => rw [Option.map_some, member, member, Stamp.encode_stored]
  simp only [encode, stored, same]

/-- What is written of a claim. -/
theorem get?_encode {k : String} : c.encode.get? k = (c.extra.get? k).or
    (if k = "leaseTransitions" then c.transitions.map int32
    else if k = "renewTime" then c.renewed.map Stamp.encode
    else if k = "acquireTime" then c.acquired.map Stamp.encode
    else if k = "leaseDurationSeconds" then c.duration.map int32
    else if k = "holderIdentity" then c.holder.map .string
    else none) := by
  rw [encode, ofMembers_eq_object, get?_object_entries]
  simp only [Table.get?_ofList_append, Table.ofList_entries, get?_ofList_member]
  congr 1
  split
  · simp only [*, String.reduceEq, if_false, Option.or_none]
  split
  · simp only [*, String.reduceEq, if_false, Option.or_none, Option.none_or]
  split
  · simp only [*, String.reduceEq, if_false, Option.or_none, Option.none_or]
  split
  · simp only [*, String.reduceEq, if_false, Option.or_none, Option.none_or]
  simp only [Option.none_or]

/-- Under the other keys stands what is kept. -/
theorem get?_encode_of_notMem {k : String} (unknown : k ∉ knownMembers) :
    c.encode.get? k = c.extra.get? k := by
  simp only [knownMembers, List.mem_cons, not_or] at unknown
  simp only [get?_encode, unknown, if_false, Option.or_none]

theorem orNull?_int32 (n : Int32) : orNull? int32? (int32 n) = some (some n) := by
  have read : int32? (int32 n) = some n := int32?_int n
  rw [int32, int] at read ⊢
  rw [orNull?, read]
  · rfl
  · intro null
    contradiction

theorem stamp?_encode {s : Stamp} (H : s.HasFourDigitYear) :
    stamp? s.encode = some (some s.stored) := by
  rw [Stamp.encode, stamp?, H.parse?_text]
  · rfl
  · exact H.text_ne_empty

/-- Claims are read from an object whose members list what is written of them. -/
theorem decode?_object {ms : List (String × Json)} (H : c.HasFourDigitYears) (plain : c.IsPlain)
    (distinct : (ms.map (·.1)).Nodup)
    (each : ∀ k ∈ knownMembers, Option.Rel Lists ((Table.ofList ms).get? k) (c.encode.get? k))
    (kept : others? knownMembers (d - 1) ms = some c.extra) :
    decode? d (.object ms) = some c.stored := by
  simp only [IsPlain, knownMembers, List.forall_mem_cons] at each plain
  obtain ⟨noHolder, noDuration, noAcquired, noRenewed, noTransitions, -⟩ := plain
  obtain ⟨holder, duration, acquired, renewed, transitions, -⟩ := each
  simp only [get?_encode, noHolder, noDuration, noAcquired, noRenewed, noTransitions,
    String.reduceEq, if_true, if_false, Option.none_or]
    at holder duration acquired renewed transitions
  have holder : defaulted? none (orNull? string?) ((Table.ofList ms).get? "holderIdentity") =
      some c.holder := defaulted?_of_lists_scalar (fun _ => ⟨rfl, rfl⟩) holder
  have duration : defaulted? none (orNull? int32?)
      ((Table.ofList ms).get? "leaseDurationSeconds") = some c.duration :=
    defaulted?_of_lists_scalar (fun n => ⟨rfl, orNull?_int32 n⟩) duration
  have transitions : defaulted? none (orNull? int32?)
      ((Table.ofList ms).get? "leaseTransitions") = some c.transitions :=
    defaulted?_of_lists_scalar (fun n => ⟨rfl, orNull?_int32 n⟩) transitions
  have acquired : defaulted? none stamp? ((Table.ofList ms).get? "acquireTime") =
      some (c.acquired.map Stamp.stored) := by
    refine defaulted?_of_lists (fun s x here h => ?_) acquired
    rw [h.eq_of_isScalar rfl, stamp?_encode (H.1 s here)]
  have renewed : defaulted? none stamp? ((Table.ofList ms).get? "renewTime") =
      some (c.renewed.map Stamp.stored) := by
    refine defaulted?_of_lists (fun s x here h => ?_) renewed
    rw [h.eq_of_isScalar rfl, stamp?_encode (H.2 s here)]
  simp only [decode?, single?_eq_get? distinct, kept, Option.bind_eq_bind, Option.bind_some,
    Option.pure_def, holder, duration, transitions, acquired, renewed, stored]

/-- What is written under the known keys lists itself. -/
theorem rel_lists_encode (plain : c.IsPlain) :
    ∀ k ∈ knownMembers, Option.Rel Lists (c.encode.get? k) (c.encode.get? k) := by
  simp only [IsPlain, knownMembers, List.forall_mem_cons] at plain
  obtain ⟨noHolder, noDuration, noAcquired, noRenewed, noTransitions, -⟩ := plain
  simp only [knownMembers, List.forall_mem_cons, get?_encode, noHolder, noDuration, noAcquired,
    noRenewed, noTransitions, String.reduceEq, if_true, if_false, Option.none_or]
  exact ⟨rel_lists_map fun _ => lists_scalar rfl, rel_lists_map fun _ => lists_scalar rfl,
    rel_lists_map fun _ => lists_scalar rfl, rel_lists_map fun _ => lists_scalar rfl,
    rel_lists_map fun _ => lists_scalar rfl, List.forall_mem_nil _⟩

/-- What has been read of a claim: the members that are kept. -/
theorem exists_of_decode? {x : Json} (read : decode? d x = some c) :
    ∃ ms, x = .object ms ∧ others? knownMembers (d - 1) ms = some c.extra := by
  cases x with
  | null | bool | number | string | array | broken => contradiction
  | object ms =>
    simp only [decode?, Option.bind_eq_bind, Option.bind_eq_some_iff, Option.pure_def,
      Option.some.injEq] at read
    obtain ⟨_, -, _, -, _, -, _, -, _, -, _, -, _, -, _, -, _, -, _, -, _, others, rfl⟩ := read
    exact ⟨ms, rfl, others⟩

/-- **Claims are read as they are stored** from what is written of them. -/
theorem decode?_encode (H : c.HasFourDigitYears) (others : AreOthers knownMembers (d - 1) c.extra) :
    decode? d c.encode = some c.stored := by
  have plain : c.IsPlain := fun k known => others.get?_eq_none known
  obtain ⟨t, written⟩ : ∃ t : Table String Json, c.encode = .object t.entries :=
    ⟨_, ofMembers_eq_object⟩
  have found : ∀ k, t.get? k = c.encode.get? k := fun k => by rw [written, get?_object_entries]
  rw [written]
  refine decode?_object H plain nodup_keys (fun k known => ?_)
    (others?_entries others fun k unknown => ?_)
  · rw [Table.ofList_entries, found]
    exact rel_lists_encode plain k known
  · rw [found, get?_encode_of_notMem unknown]

/-- Claims are read as they are stored from any layout of what is written of them. -/
theorem decode?_of_shows {x : Json} (H : c.HasFourDigitYears) (plain : c.IsPlain)
    (shows : x.Shows d c.encode) : decode? d x = some c.stored := by
  obtain ⟨e, ms, rfl, rfl⟩ : ∃ e ms, d = e + 1 ∧ x = .object ms := by
    rw [encode, ofMembers_eq_object] at shows
    exact shows.exists_members
  exact decode?_object H plain shows.lists.nodup_keys (fun k _ => shows.lists.get?)
    (shows.others? plain fun k unknown => get?_encode_of_notMem unknown)

end Claim

/-! ## Leases -/

namespace Lease

variable {l : Lease} {d : Nat}

/-- The times of the lease are in the years 0 to 9999. -/
def HasFourDigitYears (l : Lease) : Prop := l.claim.HasFourDigitYears

/-- The lease as it comes back from the store: its times are in UTC and whole microseconds. -/
def stored (l : Lease) : Lease := { l with claim := l.claim.stored }

/-- The members that are kept are apart from those that have a meaning, and nest at most `d`
deep. -/
def KeepsOthers (d : Nat) (l : Lease) : Prop :=
  AreOthers Metadata.knownMembers d l.metadata.extra ∧ AreOthers Claim.knownMembers d l.claim.extra

theorem HasFourDigitYears.stored (H : l.HasFourDigitYears) : l.stored.HasFourDigitYears := by
  refine ⟨fun s here => ?_, fun s here => ?_⟩
  · obtain ⟨t, acquired, rfl⟩ := Option.map_eq_some_iff.1 here
    exact (H.1 t acquired).stored
  · obtain ⟨t, renewed, rfl⟩ := Option.map_eq_some_iff.1 here
    exact (H.2 t renewed).stored

/-- What has been read of a lease: its metadata, and its claim if there is one. -/
theorem exists_of_decode? {json : Json} (read : decode? d json = some l) :
    ∃ x o, json.record? ["metadata", "spec"] = some [some x, o] ∧
      Metadata.decode? (d - 1) x = some l.metadata ∧
      defaulted? {} (Claim.decode? (d - 1)) o = some l.claim := by
  simp only [decode?, Option.bind_eq_bind, Option.bind_eq_some_iff] at read
  obtain ⟨fields, record, read⟩ := read
  split at read
  · simp only [required?, Option.bind_eq_some_iff, Option.pure_def, Option.some.injEq] at read
    obtain ⟨m, ⟨x, rfl, readMetadata⟩, c, readClaim, rfl⟩ := read
    exact ⟨x, _, record, readMetadata, readClaim⟩
  · contradiction

theorem exists_of_decode?_object {ms : List (String × Json)}
    (read : decode? d (.object ms) = some l) :
    ∃ x, (Json.object ms).get? "metadata" = some x ∧
      Metadata.decode? (d - 1) x = some l.metadata ∧
      defaulted? {} (Claim.decode? (d - 1)) ((Json.object ms).get? "spec") = some l.claim := by
  obtain ⟨x, o, record, readMetadata, readClaim⟩ := exists_of_decode? read
  obtain ⟨metadata, rest⟩ := List.cons.inj (eq_map_of_record? record)
  obtain ⟨rfl, -⟩ := List.cons.inj rest
  exact ⟨x, metadata.symm, readMetadata, readClaim⟩

/-- A lease that has been read keeps the members that have no meaning. -/
theorem keepsOthers_of_decode? {json : Json} (read : decode? d json = some l) :
    l.KeepsOthers (d - 2) := by
  obtain ⟨x, o, -, readMetadata, readClaim⟩ := exists_of_decode? read
  constructor
  · obtain ⟨ms, -, -, -, others⟩ := Metadata.exists_of_decode? readMetadata
    exact areOthers_of_others? others
  · cases o with
    | none =>
      rw [← Option.some.inj readClaim]
      intro k v found
      contradiction
    | some y =>
      obtain ⟨ms, -, others⟩ := Claim.exists_of_decode? readClaim
      exact areOthers_of_others? others

/-- Leases are read from an object with their metadata and their claim. -/
theorem decode?_object {ms : List (String × Json)} {x y : Json} {m : Metadata} {c : Claim}
    (distinct : (ms.map (·.1)).Nodup)
    (metadata : (Table.ofList ms).get? "metadata" = some x)
    (readMetadata : Metadata.decode? (d - 1) x = some m)
    (claim : (Table.ofList ms).get? "spec" = some y)
    (readClaim : Claim.decode? (d - 1) y = some c) : decode? d (.object ms) = some ⟨m, c⟩ := by
  simp only [decode?, record?, isLongerThan, fields?, List.mapM_cons, List.mapM_nil,
    single?_eq_get? distinct, metadata, claim, Bool.false_eq_true, if_false, Option.bind_eq_bind,
    Option.bind_some, Option.pure_def, required?, readMetadata, defaulted?, readClaim]

/-- A lease as JSON, if its times are in the years 0 to 9999. -/
def encode (l : Lease) : Json :=
  Json.ofMembers [("metadata", l.metadata.encode), ("spec", l.claim.encode)]

theorem encode?_eq (H : l.HasFourDigitYears) : l.encode? = some l.encode := by
  rw [encode?, Claim.encode?_eq H]
  rfl

/-- The lease that is stored is written like the lease itself. -/
theorem encode_stored : l.stored.encode = l.encode := by
  simp only [encode, stored, Claim.encode_stored]

/-- **Leases are read as they are stored** from an object with what is written of them. -/
theorem decode?_entries {t : Table String Json} (H : l.HasFourDigitYears)
    (kept : l.KeepsOthers (d - 2)) (metadata : t.get? "metadata" = some l.metadata.encode)
    (claim : t.get? "spec" = some l.claim.encode) :
    decode? d (.object t.entries) = some l.stored := by
  refine decode?_object nodup_keys ?_ (Metadata.decode?_encode kept.1) ?_
    (Claim.decode?_encode H kept.2)
  · rw [Table.ofList_entries, metadata]
  · rw [Table.ofList_entries, claim]

/-- Leases are read as they are stored from any layout of what is written of them, whatever else
stands beside it. -/
theorem decode?_of_shows {x v : Json} (H : l.HasFourDigitYears) (plainMetadata : l.metadata.IsPlain)
    (plainClaim : l.claim.IsPlain) (shows : x.Shows d v)
    (metadata : v.get? "metadata" = some l.metadata.encode)
    (claim : v.get? "spec" = some l.claim.encode) : decode? d x = some l.stored := by
  obtain ⟨e, ms, rfl, rfl⟩ := shows.exists_members_of_get? metadata
  obtain ⟨x, metadata, showsMetadata⟩ := shows.exists_member metadata
  obtain ⟨y, claim, showsClaim⟩ := shows.exists_member claim
  exact decode?_object shows.lists.nodup_keys metadata
    (Metadata.decode?_of_shows plainMetadata showsMetadata) claim
    (Claim.decode?_of_shows H plainClaim showsClaim)

end Lease

end LeasePool
