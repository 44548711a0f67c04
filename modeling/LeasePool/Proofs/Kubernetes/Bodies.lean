import LeasePool.Kubernetes.Server
import LeasePool.Lease.Edit
import LeasePool.Proofs.Lease.Codec

/-!
# What is sent of a lease

A lease that has been read is written back as it was read: the codec loses what is beyond the
microsecond of its two times and nothing else. Of the document that it was read from more is
lost. Members without a meaning are kept in the metadata and in the claim, where there is a
table for them, but not in the references to owners, which have none.
-/

namespace LeasePool

open Json

/-! ## Bodies -/

namespace Lease

variable {l : Lease} {d : Nat}

/-- A lease as it is sent, if its times are in the years 0 to 9999. -/
def body (l : Lease) : Json :=
  Json.ofMembers [("apiVersion", .string ApiServer.leaseVersion), ("kind", .string "Lease"),
    ("metadata", l.metadata.encode), ("spec", l.claim.encode)]

theorem get?_body :
    l.body.get? "metadata" = some l.metadata.encode ∧ l.body.get? "spec" = some l.claim.encode := by
  rw [body, ofMembers_eq_object, get?_object_entries, get?_object_entries]
  simp [Table.get?_ofList_cons]

theorem leaseBody?_eq (H : l.HasFourDigitYears) : ApiServer.leaseBody? l = some l.body := by
  rw [ApiServer.leaseBody?, Claim.encode?_eq H]
  rfl

/-- There is one way to send a lease. -/
theorem eq_body_of_leaseBody? {json : Json} (h : ApiServer.leaseBody? l = some json) :
    json = l.body := by
  simp only [ApiServer.leaseBody?, Option.bind_eq_bind, Option.bind_eq_some_iff, Option.pure_def,
    Option.some.injEq] at h
  obtain ⟨claim, written, rfl⟩ := h
  rw [Claim.eq_encode_of_encode? written, body]

/-- Leases are read as they are stored from what is sent of them. -/
theorem decode?_body (H : l.HasFourDigitYears) (kept : l.KeepsOthers (d - 2)) :
    decode? d l.body = some l.stored := by
  obtain ⟨metadata, claim⟩ := get?_body (l := l)
  rw [body, ofMembers_eq_object, get?_object_entries] at metadata claim
  rw [body, ofMembers_eq_object]
  exact decode?_entries H kept metadata claim

theorem decode?_encode (H : l.HasFourDigitYears) (kept : l.KeepsOthers (d - 2)) :
    decode? d l.encode = some l.stored := by
  rw [encode, ofMembers_eq_object]
  exact decode?_entries H kept (by simp [Table.get?_ofList_cons]) (by simp [Table.get?_ofList_cons])

/-- **A lease that has been read is written and read again**, with its times in UTC and whole
microseconds and everything else as it was. The lease that comes back is written like the lease
itself, and what is sent of it is read in the same way. -/
theorem roundTrip_of_decode? {json : Json} (read : decode? d json = some l)
    (years : l.HasFourDigitYears) :
    ∃ written sent, l.encode? = some written ∧ decode? d written = some l.stored ∧
      l.stored.encode? = some written ∧
      ApiServer.leaseBody? l = some sent ∧ decode? d sent = some l.stored := by
  have kept := keepsOthers_of_decode? read
  refine ⟨l.encode, l.body, encode?_eq years, decode?_encode years kept, ?_,
    leaseBody?_eq years, decode?_body years kept⟩
  rw [encode?_eq years.stored, encode_stored]

/-- A lease that was acquired in the leap second at the end of 2016 and renewed a year later,
with a fraction of twelve digits and by a clock in another time zone; nobody holds it any more. -/
def lapsedDocument : Json := .object
  [("spec", .object
    [("renewTime", .string "2017-12-31T18:30:00.123456789012-05:30"), ("strategy", .null),
      ("acquireTime", .string "2016-12-31T23:59:60Z"), ("holderIdentity", .string ""),
      ("leaseTransitions", .null)]),
    ("metadata", .object
      [("name", .string "orders"), ("annotations", .object [("b", .null), ("a", .array [])])])]

/-- The lease of the document. -/
def lapsed : Lease where
  metadata := { name := "orders"
                extra := .ofList [("annotations", .object [("a", .array []), ("b", .null)])] }
  claim := { holder := some ""
             acquired := some ⟨⟨1483228799999999999⟩, 0⟩
             renewed := some ⟨⟨1514764800123456789⟩, -330⟩
             extra := .ofList [("strategy", .null)] }

/-- It is written with both times in UTC and in whole microseconds. -/
theorem roundTrip_of_lapsed : decode? depthLimit lapsedDocument = some lapsed ∧
    lapsed.HasFourDigitYears ∧
    ∃ written sent, lapsed.encode? = some written ∧
      decode? depthLimit written = some lapsed.stored ∧ lapsed.stored.encode? = some written ∧
      ApiServer.leaseBody? lapsed = some sent ∧ decode? depthLimit sent = some lapsed.stored := by
  have read : decode? depthLimit lapsedDocument = some lapsed := by decide +kernel
  have years : lapsed.HasFourDigitYears := by
    refine ⟨fun s here => ?_, fun s here => ?_⟩
    · rw [← Option.some.inj here]
      exact ⟨by decide, by decide⟩
    · rw [← Option.some.inj here]
      exact ⟨by decide, by decide⟩
  exact ⟨read, years, roundTrip_of_decode? read years⟩

end Lease

/-! ## What is kept of a document -/

namespace Json

/-- What stands at the end of a path of keys. -/
def at? : List String → Json → Option Json
  | [], json => some json
  | key :: path, json => (json.get? key).bind (at? path)

end Json

/-- The members that a reference to an owner gives a meaning to, and that have to be there. -/
def OwnerReference.requiredMembers : List String := ["apiVersion", "kind", "name", "uid"]

/-- The labels that an edit sets. -/
def Edit.labels : Edit → Labels
  | manage labels _ => labels
  | claim .. | release => .empty

namespace Metadata

variable {m : Metadata} {d : Nat} {x : Json}

/-- A member of a document that has no meaning is kept. -/
theorem member_of_decode? {k : String} {v : Json} (unknown : k ∉ knownMembers)
    (read : decode? d x = some m) (found : x.get? k = some v) :
    ∃ w, v.value? (d - 1) = some w ∧ m.extra.get? k = some w := by
  obtain ⟨ms, rfl, -, -, others⟩ := exists_of_decode? read
  exact exists_value_of_others? others unknown found

/-- A label of a document is read as a label. -/
theorem label_of_decode? {k : String} {v : Json} (read : decode? d x = some m)
    (found : x.at? ["labels", k] = some v) :
    ∃ s, v = .string s ∧ m.labels.get? k = some s := by
  obtain ⟨ms, rfl, ⟨o, single, readLabels⟩, -, -⟩ := exists_of_decode? read
  have here : (Json.object ms).get? "labels" = o := get?_of_single? single
  cases o with
  | none => simp [at?, here] at found
  | some x =>
    have under : (m.labels.get? k).map Json.string = some v := by
      rw [← Labels.get?_of_decode? readLabels]
      simpa [at?, here] using found
    obtain ⟨s, label, rfl⟩ := Option.map_eq_some_iff.1 under
    exact ⟨s, rfl, label⟩

/-- A label is written under its key. -/
theorem at?_encode_label {k s : String} (plain : m.IsPlain) (label : m.labels.get? k = some s) :
    m.encode.at? ["labels", k] = some (.string s) := by
  have some : ¬ m.labels.isEmpty = true := by
    intro empty
    rw [Table.get?, List.isEmpty_iff.1 empty] at label
    contradiction
  have written : m.encode.get? "labels" = Option.some m.labels.encode := by
    simp [get?_encode, plain "labels" (by decide), some]
  simp only [at?, written, Option.bind_some, Labels.get?_encode, label, Option.map_some]

/-- The owners of a document are read one by one. -/
theorem owners_of_decode? {os : List Json} (read : decode? d x = some m)
    (found : x.get? "ownerReferences" = some (.array os)) :
    List.Forall₂ (fun x o => OwnerReference.decode? x = some o) os m.owners := by
  obtain ⟨ms, rfl, -, ⟨o, single, readOwners⟩, -⟩ := exists_of_decode? read
  have here : (Json.object ms).get? "ownerReferences" = o := get?_of_single? single
  obtain rfl : o = some (.array os) := here.symm.trans found
  exact mapM_eq_some.1 readOwners

/-- The owners are written if there are any. -/
theorem get?_encode_owners (plain : m.IsPlain) (some : m.owners ≠ []) :
    m.encode.get? "ownerReferences" =
      Option.some (.array (m.owners.map OwnerReference.encode)) := by
  simp [get?_encode, plain "ownerReferences" (by decide), some]

end Metadata

/-- A member of a document that has no meaning is kept. -/
theorem Claim.member_of_decode? {c : Claim} {d : Nat} {x : Json} {k : String} {v : Json}
    (unknown : k ∉ knownMembers) (read : decode? d x = some c) (found : x.get? k = some v) :
    ∃ w, v.value? (d - 1) = some w ∧ c.extra.get? k = some w := by
  obtain ⟨ms, rfl, others⟩ := exists_of_decode? read
  exact exists_value_of_others? others unknown found

namespace ApiServer

/-- What a reference to an owner keeps of the document that it was read from: five members, of
which the last is not there if it was null. -/
structure KeepsOwner (x y : Json) : Prop where
  required : ∀ k ∈ OwnerReference.requiredMembers, y.get? k = x.get? k
  controller : y.get? "controller" = (x.get? "controller").filter (· ≠ .null)
  others : ∀ k ∉ "controller" :: OwnerReference.requiredMembers, y.get? k = none

/-- What a body keeps of the document that its lease was read from, if `managed` are the labels
that were set in between. -/
structure Keeps (d : Nat) (managed : Labels) (x y : Json) : Prop where
  /-- Every member of the metadata without a meaning has the same value. -/
  metadata : ∀ k ∉ Metadata.knownMembers, ∀ v, x.at? ["metadata", k] = some v →
    ∃ w, v.value? d = some w ∧ y.at? ["metadata", k] = some w
  /-- Every member of the claim without a meaning has the same value. -/
  claim : ∀ k ∉ Claim.knownMembers, ∀ v, x.at? ["spec", k] = some v →
    ∃ w, v.value? d = some w ∧ y.at? ["spec", k] = some w
  /-- Every other label is the same. -/
  labels : ∀ k, managed.get? k = none → ∀ v, x.at? ["metadata", "labels", k] = some v →
    y.at? ["metadata", "labels", k] = some v
  /-- Every owner is there, with the members that have a meaning and with no other. -/
  owners : ∀ o os, x.at? ["metadata", "ownerReferences"] = some (.array (o :: os)) →
    ∃ ws, y.at? ["metadata", "ownerReferences"] = some (.array ws) ∧
      List.Forall₂ (fun x y => ∀ ms, x = .object ms → KeepsOwner x y) (o :: os) ws

theorem keepsOwner_of_decode? {ms : List (String × Json)} {o : OwnerReference}
    (read : OwnerReference.decode? (.object ms) = some o) : KeepsOwner (.object ms) o.encode := by
  obtain ⟨apiVersion, kind, name, uid, controller⟩ := OwnerReference.get?_of_decode? read
  constructor
  · simp only [OwnerReference.requiredMembers, List.forall_mem_cons, apiVersion, kind, name, uid,
      OwnerReference.get?_encode, String.reduceEq, if_true, if_false, true_and]
    exact List.forall_mem_nil _
  · rw [OwnerReference.get?_encode, if_pos rfl]
    cases found : (Json.object ms).get? "controller" with
    | none =>
      rw [found] at controller
      rw [← Option.some.inj controller]
      rfl
    | some x =>
      rw [found] at controller
      cases x with
      | null =>
        rw [← Option.some.inj controller]
        rfl
      | bool b =>
        rw [← Option.some.inj controller]
        rfl
      | number | string | array | object | broken => contradiction
  · intro k unknown
    simp only [OwnerReference.requiredMembers, List.mem_cons, not_or] at unknown
    simp only [OwnerReference.get?_encode, unknown, if_false]

/-- An edit changes neither the owners nor the members without a meaning, and no label that it
does not set. -/
theorem edit_frame (l : Lease) (e : Edit) :
    (l.edit e).metadata = { l.metadata with labels := l.metadata.labels.override e.labels } ∧
      (l.edit e).claim.extra = l.claim.extra := by
  cases e with
  | manage labels duration => exact ⟨rfl, rfl⟩
  | release => exact ⟨rfl, rfl⟩
  | claim holder now =>
    refine ⟨rfl, ?_⟩
    rw [Lease.edit, Claim.renewedBy]
    split <;> rfl

/-- **What is kept when a lease is read, changed and sent.** -/
theorem keeps_of_edit {d : Nat} {ms : List (String × Json)} {l : Lease} {e : Edit} {body : Json}
    (read : Lease.decode? d (.object ms) = some l) (sent : leaseBody? (l.edit e) = some body) :
    Keeps (d - 2) e.labels (.object ms) body := by
  obtain ⟨x, metadata, readMetadata, readClaim⟩ := Lease.exists_of_decode?_object read
  obtain ⟨editMetadata, editClaim⟩ := edit_frame l e
  obtain ⟨bodyMetadata, bodyClaim⟩ := Lease.get?_body (l := l.edit e)
  rw [← Lease.eq_body_of_leaseBody? sent] at bodyMetadata bodyClaim
  rw [editMetadata] at bodyMetadata
  let written : Metadata := { l.metadata with labels := l.metadata.labels.override e.labels }
  have plain : written.IsPlain :=
    fun k known => (Lease.keepsOthers_of_decode? read).1.get?_eq_none known
  constructor
  · intro k unknown v found
    have found : x.get? k = some v := by simpa [at?, metadata] using found
    obtain ⟨w, value, kept⟩ := Metadata.member_of_decode? unknown readMetadata found
    refine ⟨w, value, ?_⟩
    simp only [at?, bodyMetadata, Option.bind_some, Metadata.get?_encode_of_notMem unknown, kept]
  · intro k unknown v found
    cases claim : (Json.object ms).get? "spec" with
    | none => simp [at?, claim] at found
    | some y =>
      rw [claim] at readClaim
      have found : y.get? k = some v := by simpa [at?, claim] using found
      obtain ⟨w, value, kept⟩ := Claim.member_of_decode? unknown readClaim found
      refine ⟨w, value, ?_⟩
      simp only [at?, bodyClaim, Option.bind_some, Claim.get?_encode_of_notMem unknown, editClaim,
        kept]
  · intro k other v found
    have found : x.at? ["labels", k] = some v := by
      simpa only [at?, metadata, Option.bind_some] using found
    obtain ⟨s, rfl, label⟩ := Metadata.label_of_decode? readMetadata found
    have label : (l.metadata.labels.override e.labels).get? k = some s := by
      rw [Table.get?_override, other, Option.none_or, label]
    have written := Metadata.at?_encode_label (m := written) plain label
    rw [at?, bodyMetadata]
    exact written
  · intro o os found
    have found : x.get? "ownerReferences" = some (.array (o :: os)) := by
      simpa [at?, metadata] using found
    have each := Metadata.owners_of_decode? readMetadata found
    have some : l.metadata.owners ≠ [] := by
      intro none
      rw [none] at each
      contradiction
    refine ⟨l.metadata.owners.map OwnerReference.encode, ?_, ?_⟩
    · rw [at?, bodyMetadata, Option.bind_some, at?,
        Metadata.get?_encode_owners (m := written) plain some]
      rfl
    · rw [List.forall₂_map_right_iff]
      refine each.imp ?_
      rintro x o read ms rfl
      exact keepsOwner_of_decode? read

/-- A member lease that somebody else has annotated and labelled, and whose owner is not to be
deleted before it. -/
def ownedDocument : Json := .object
  [("metadata", .object
      [("name", .string "flow-pool-member-orders-00"), ("namespace", .string "ns"),
        ("labels", .object [("team", .string "payments"), (poolLabel, .string "invoices")]),
        ("annotations", .object [("contact", .string "ops")]),
        ("ownerReferences", .array
          [.object
            [("apiVersion", .string "apps/v1"), ("kind", .string "Deployment"),
              ("name", .string "web"), ("uid", .string "uid-web"), ("controller", .bool true),
              ("blockOwnerDeletion", .bool true)]])]),
    ("spec", .object [("holderIdentity", .string "web-0"), ("strategy", .string "oldest")])]

/-- The correction of its labels keeps the annotation, the strategy and the label of others. -/
theorem keeps_of_correction : ∃ l body,
    Lease.decode? depthLimit ownedDocument = some l ∧
    leaseBody? (l.edit (.manage (Role.member.labels "orders") 30)) = some body ∧
    Keeps (depthLimit - 2) (Role.member.labels "orders") ownedDocument body :=
  ⟨_, _, rfl, rfl, keeps_of_edit (e := .manage (Role.member.labels "orders") 30) rfl rfl⟩

/-- **The member of an owner reference that has no meaning is lost**: once the lease has been
changed, nothing keeps the owner from being deleted first. -/
theorem drops_ownerMember : ∃ l body x y,
    Lease.decode? depthLimit ownedDocument = some l ∧ leaseBody? (l.edit .release) = some body ∧
    ownedDocument.at? ["metadata", "ownerReferences"] = some (.array [x]) ∧
    body.at? ["metadata", "ownerReferences"] = some (.array [y]) ∧
    x.get? "blockOwnerDeletion" = some (.bool true) ∧ y.get? "blockOwnerDeletion" = none :=
  ⟨_, _, _, _, rfl, rfl, rfl, rfl, rfl, rfl⟩

end ApiServer

end LeasePool
