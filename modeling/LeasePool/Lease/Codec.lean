import LeasePool.Lease.Basic

/-!
# Leases as JSON

How leases and their metadata are read from JSON and written to it. Reading is strict about the
members it knows: a repeated one, or one of a wrong type, makes the object unreadable. Unknown
members of the metadata and of the claim are kept and written back; elsewhere they are not
looked at.
-/

namespace LeasePool

open Json

namespace OwnerReference

/-- An owner reference as JSON. -/
def encode (o : OwnerReference) : Json :=
  Json.ofMembers <| [("apiVersion", .string o.apiVersion), ("kind", .string o.kind),
    ("name", .string o.name), ("uid", .string o.uid)] ++ member "controller" .bool o.controller

/-- Reads an owner reference. -/
def decode? (json : Json) : Option OwnerReference := do
  match ← json.record? ["apiVersion", "kind", "name", "uid", "controller"] with
  | [apiVersion, kind, name, uid, controller] =>
    return {
      apiVersion := ← required? string? apiVersion
      kind := ← required? string? kind
      name := ← required? string? name
      uid := ← required? string? uid
      controller := ← defaulted? none (orNull? bool?) controller }
  | _ => none

end OwnerReference

/-- Labels as JSON. -/
def Labels.encode (labels : Labels) : Json :=
  .object (labels.entries.map fun e => (e.1, .string e.2))

/-- Reads labels. Of a repeated key the last counts. -/
def Labels.decode? : Json → Option Labels
  | .object members => do
    let entries ← members.mapM fun m => (m.2.string?).map fun value => (m.1, value)
    return Table.ofList entries
  | _ => none

namespace Metadata

/-- The members that metadata give a meaning to. -/
def knownMembers : List String :=
  ["name", "namespace", "uid", "resourceVersion", "labels", "ownerReferences"]

/-- Metadata as JSON. -/
def encode (m : Metadata) : Json :=
  Json.ofMembers <| [("name", .string m.name)]
    ++ (if m.ns = "" then [] else [("namespace", .string m.ns)])
    ++ member "uid" .string m.uid
    ++ member "resourceVersion" .string m.version
    ++ (if m.labels.isEmpty then [] else [("labels", m.labels.encode)])
    ++ (if m.owners.isEmpty then []
        else [("ownerReferences", .array (m.owners.map OwnerReference.encode))])
    ++ m.extra.entries

/-- Reads the owner references of an object. -/
def owners? : Json → Option (List OwnerReference)
  | .array items => items.mapM OwnerReference.decode?
  | _ => none

/-- Reads metadata. Only an object will do. -/
def decode? (depth : Nat) : Json → Option Metadata
  | .object members => do
    return {
      name := ← required? string? (← single? members "name")
      ns := ← defaulted? "" string? (← single? members "namespace")
      uid := ← defaulted? none (orNull? string?) (← single? members "uid")
      version := ← defaulted? none (orNull? string?) (← single? members "resourceVersion")
      labels := ← defaulted? .empty Labels.decode? (← single? members "labels")
      owners := ← defaulted? [] owners? (← single? members "ownerReferences")
      extra := ← others? knownMembers (depth - 1) members }
  | _ => none

end Metadata

namespace Claim

/-- The members that a claim gives a meaning to. -/
def knownMembers : List String :=
  ["holderIdentity", "leaseDurationSeconds", "acquireTime", "renewTime", "leaseTransitions"]

/-- Reads a time. Null and the empty text stand for none. -/
def stamp? : Json → Option (Option Stamp)
  | .null => some none
  | .string "" => some none
  | .string s => (Stamp.parse? s).map some
  | _ => none

/-- The member for a time. There is none to write for a date beyond the calendar. -/
def stampMember? (key : String) : Option Stamp → Option (List (String × Json))
  | none => some []
  | some time => time.text?.map fun text => [(key, .string text)]

/-- A 32-bit integer as JSON. -/
def int32 (n : Int32) : Json := Json.int n.toInt

/-- A claim as JSON, unless it has a time beyond the calendar. -/
def encode? (c : Claim) : Option Json := do
  let acquired ← stampMember? "acquireTime" c.acquired
  let renewed ← stampMember? "renewTime" c.renewed
  return Json.ofMembers <| member "holderIdentity" .string c.holder
    ++ member "leaseDurationSeconds" int32 c.duration
    ++ acquired ++ renewed
    ++ member "leaseTransitions" int32 c.transitions
    ++ c.extra.entries

/-- Reads a claim. Only an object will do. -/
def decode? (depth : Nat) : Json → Option Claim
  | .object members => do
    return {
      holder := ← defaulted? none (orNull? string?) (← single? members "holderIdentity")
      duration := ← defaulted? none (orNull? int32?) (← single? members "leaseDurationSeconds")
      acquired := ← defaulted? none stamp? (← single? members "acquireTime")
      renewed := ← defaulted? none stamp? (← single? members "renewTime")
      transitions := ← defaulted? none (orNull? int32?) (← single? members "leaseTransitions")
      extra := ← others? knownMembers (depth - 1) members }
  | _ => none

end Claim

namespace Lease

/-- A lease as JSON, unless it has a time beyond the calendar. -/
def encode? (l : Lease) : Option Json := do
  let claim ← l.claim.encode?
  return Json.ofMembers [("metadata", l.metadata.encode), ("spec", claim)]

/-- Reads a lease. -/
def decode? (depth : Nat) (json : Json) : Option Lease := do
  match ← json.record? ["metadata", "spec"] with
  | [metadata, claim] =>
    return {
      metadata := ← required? (Metadata.decode? (depth - 1)) metadata
      claim := ← defaulted? {} (Claim.decode? (depth - 1)) claim }
  | _ => none

/-- Reads a list of leases: the `items` of an object, which may be missing or null. -/
def decodeList? (depth : Nat) (json : Json) : Option (List Lease) := do
  match ← json.record? ["items"] with
  | [items] =>
    let leases ← defaulted? none (orNull? fun
      | .array items => items.mapM (decode? (depth - 2))
      | _ => none) items
    return leases.getD []
  | _ => none

end Lease

namespace Workload

/-- Reads the number of pods that a workload wants: an object that may lack it, or an array with
nothing else. -/
def replicas? : Json → Option (Option Int32)
  | .array [replicas] => orNull? int32? replicas
  | .object members => do defaulted? none (orNull? int32?) (← single? members "replicas")
  | _ => none

/-- Reads a workload of the given kind. -/
def decode? (kind : WorkloadKind) (depth : Nat) (json : Json) : Option Workload := do
  match ← json.record? ["metadata", "spec"] with
  | [metadata, spec] =>
    return {
      kind
      metadata := ← required? (Metadata.decode? (depth - 1)) metadata
      replicas := ← defaulted? none replicas? spec }
  | _ => none

end Workload

end LeasePool
