import LeasePool.Config.Settings
import LeasePool.Text.Blank
import LeasePool.Toml.Printer
import LeasePool.Toml.Reader

/-!
# The configuration of a process

Where a process keeps its leases, how it finds out who it is, where it reports its health, and
the settings of its pool. Every field has a default. The configuration is read from a TOML
document, and the default one is written as a template.
-/

namespace LeasePool

/-- Where leases are kept. -/
inductive StoreKind where
  | kubernetes
  | memory
  deriving DecidableEq, Repr

/-- How a process finds out who it is. -/
inductive IdentityKind where
  /-- In a cluster, where a missing value is an error. -/
  | cluster
  /-- On its own, with stand-ins for missing values. -/
  | alone
  deriving DecidableEq, Repr

/-- The store that a text stands for, in any case. -/
def StoreKind.parse (text : String) : Except ConfigError StoreKind :=
  let lower := text.toList.map Char.toLower
  if lower = "kubernetes".toList ∨ lower = "k8s".toList then .ok .kubernetes
  else if lower = "memory".toList then .ok .memory
  else .error (.unknownStore text)

/-- The way that a text stands for, in any case. -/
def IdentityKind.parse (text : String) : Except ConfigError IdentityKind :=
  let lower := text.toList.map Char.toLower
  if lower = "cluster".toList then .ok .cluster
  else if lower = "local".toList then .ok .alone
  else .error (.unknownIdentity text)

/-- How to reach a cluster. An empty text stands for what the surroundings of the process
provide. -/
structure ClusterAccess where
  apiServer : String := ""
  tokenFile : String := ""
  /-- The file with the authorities that vouch for the server. -/
  authorityFile : String := ""
  deriving DecidableEq, Repr

/-- The configuration of a process. -/
structure ProcessConfig where
  store : String := "kubernetes"
  identity : String := "cluster"
  /-- The namespace if nothing else tells it. -/
  ns : String := ""
  /-- Where health is reported. -/
  bind : String := "0.0.0.0"
  /-- At which port health is reported; not at all at port 0. -/
  port : UInt16 := 8080
  /-- How long the start may wait for a member lease. -/
  patience : String := "30s"
  /-- How long a running cycle may go on after the end has been asked for. -/
  grace : String := "10s"
  /-- The desired replicas if there is no deployment that tells them. -/
  replicas : Int32 := 1
  cluster : ClusterAccess := {}
  settings : PoolSettings := {}
  deriving DecidableEq, Repr

namespace ProcessConfig

/-- The namespace of the configuration, if it has one. -/
def fallbackNamespace? (c : ProcessConfig) : Option String :=
  if c.ns = "" then none else some c.ns

/-- The port of the health report, if there is one. -/
def healthPort? (c : ProcessConfig) : Option UInt16 :=
  if c.port = 0 then none else some c.port

/-- Finds the first fault of a configuration. -/
def check (c : ProcessConfig) : Except ConfigError Unit := do
  if Text.isBlankText c.settings.pool then throw .emptyPoolName
  if c.settings.lease.member.duration ≤ 0 ∨ c.settings.lease.leader.duration ≤ 0 then
    throw .durationNotPositive
  if c.replicas < 0 then throw .negativeReplicas
  let _ ← StoreKind.parse c.store
  let _ ← IdentityKind.parse c.identity
  let _ ← parseSpan c.patience
  let _ ← parseSpan c.grace
  let _ ← c.settings.schedule.leader.schedule
  let _ ← c.settings.schedule.member.schedule

/-! ## Documents -/

open Json

/-- A port number. -/
def port? (json : Json) : Option UInt16 :=
  (json.integer? 0 (Int.pow 2 16)).map fun n => UInt16.ofNat n.toNat

/-- Reads how to reach a cluster. -/
def clusterAccess? (r : RecordReader) (json : Json) : Option ClusterAccess := do
  match ← r.fields? ["api_server", "token_file", "ca_file"] json with
  | [apiServer, tokenFile, authorityFile] =>
    return {
      apiServer := ← defaulted? "" string? apiServer
      tokenFile := ← defaulted? "" string? tokenFile
      authorityFile := ← defaulted? "" string? authorityFile }
  | _ => none

/-- The names of the fields that are not tables of the pool settings. -/
def fieldNames : List String :=
  ["store", "identity", "namespace", "bind", "health_port", "await_lease_timeout",
    "shutdown_grace", "replicas", "kubernetes"]

/-- Reads a configuration. -/
def decode? (r : RecordReader) (json : Json) : Option ProcessConfig := do
  match ← r.fields? (fieldNames ++ PoolSettings.tableNames) json with
  | store :: identity :: ns :: bind :: port :: patience :: grace :: replicas :: cluster
      :: tables =>
    return {
      store := ← defaulted? "kubernetes" string? store
      identity := ← defaulted? "cluster" string? identity
      ns := ← defaulted? "" string? ns
      bind := ← defaulted? "0.0.0.0" string? bind
      port := ← defaulted? 8080 port? port
      patience := ← defaulted? "30s" string? patience
      grace := ← defaulted? "10s" string? grace
      replicas := ← defaulted? 1 int32? replicas
      cluster := ← defaulted? {} (clusterAccess? r) cluster
      settings := ← PoolSettings.ofTables? r tables }
  | _ => none

/-- The configuration as a JSON document. -/
def encode (c : ProcessConfig) : Json :=
  .object <| [("store", .string c.store), ("identity", .string c.identity),
    ("namespace", .string c.ns), ("bind", .string c.bind), ("health_port", .int c.port.toNat),
    ("await_lease_timeout", .string c.patience), ("shutdown_grace", .string c.grace),
    ("replicas", .int c.replicas.toInt),
    ("kubernetes", .object [("api_server", .string c.cluster.apiServer),
      ("token_file", .string c.cluster.tokenFile),
      ("ca_file", .string c.cluster.authorityFile)])] ++ c.settings.tables

/-- Reads a configuration from a TOML document. Surplus elements of an array are not looked
at. -/
def ofToml? (text : String) : Option ProcessConfig := do
  let members ← Toml.parse? text
  decode? { refusesExcess := false } (.object (Toml.membersToJson members))

/-- The values of lease settings. -/
def leaseEntries (s : LeaseSettings) : List (String × Toml.Scalar) :=
  [("duration_secs", .integer s.duration.toInt), ("enabled", .boolean s.enabled)]

/-- The texts of a schedule. -/
def scheduleEntries (s : ScheduleSettings) : List (String × Toml.Scalar) :=
  [("interval", .string s.interval), ("initial_delay", .string s.delay)]

/-- The tables of a configuration. -/
def sections (c : ProcessConfig) : List Toml.Section :=
  [{ path := []
     entries := [("store", .string c.store), ("identity", .string c.identity),
      ("namespace", .string c.ns), ("bind", .string c.bind),
      ("health_port", .integer c.port.toNat), ("await_lease_timeout", .string c.patience),
      ("shutdown_grace", .string c.grace), ("replicas", .integer c.replicas.toInt)] },
    { path := ["kubernetes"]
      entries := [("api_server", .string c.cluster.apiServer),
        ("token_file", .string c.cluster.tokenFile),
        ("ca_file", .string c.cluster.authorityFile)] },
    { path := ["pool"], entries := [("name", .string c.settings.pool)] },
    { path := ["lease", "member"], entries := leaseEntries c.settings.lease.member },
    { path := ["lease", "leader"], entries := leaseEntries c.settings.lease.leader },
    { path := ["schedulers", "leader"], entries := scheduleEntries c.settings.schedule.leader },
    { path := ["schedulers", "member"], entries := scheduleEntries c.settings.schedule.member },
    { path := ["readiness"], entries := [("require_lease", .boolean c.settings.requireLease)] }]

/-- The configuration as a TOML document. -/
def toToml (c : ProcessConfig) : String := Toml.render c.sections

end ProcessConfig

end LeasePool
