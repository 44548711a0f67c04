import LeasePool.Config.Schedule
import LeasePool.Json.Basic
import LeasePool.Lease.Naming

/-!
# Pool settings

What one participant of a pool has to know: the name of the pool, for how long leases are good,
which roles it takes, when its controllers run, and whether it is ready without a lease. Every
field has a default.
-/

namespace LeasePool

/-- A value for each role. -/
structure PerRole (α : Type) where
  leader : α
  member : α
  deriving DecidableEq, Repr

/-- The value for a role. -/
def PerRole.get {α : Type} (values : PerRole α) : Role → α
  | .leader => values.leader
  | .member => values.member

/-- Settings of the leases of a role. -/
structure LeaseSettings where
  /-- Seconds for which a renewal is good. -/
  duration : Int32 := 30
  /-- Whether the participant takes the role at all. -/
  enabled : Bool := true
  deriving DecidableEq, Repr

/-- The texts of a schedule. -/
structure ScheduleSettings where
  interval : String := "30s"
  delay : String := "random"
  deriving DecidableEq, Repr

/-- The schedule that the texts stand for. -/
def ScheduleSettings.schedule (s : ScheduleSettings) : Except ConfigError Schedule := do
  let interval ← parseSpan s.interval
  let delay ← InitialDelay.parse s.delay
  return { interval, delay }

/-- The settings of a participant. -/
structure PoolSettings where
  pool : String := "flow-pool"
  lease : PerRole LeaseSettings := ⟨{}, {}⟩
  schedule : PerRole ScheduleSettings := ⟨{}, {}⟩
  /-- Whether a participant that holds no lease is not ready. -/
  requireLease : Bool := true
  deriving DecidableEq, Repr

open Json

/-- Reads records from documents. Some formats refuse an array with more elements than the
record has fields; others look no further. -/
structure RecordReader where
  refusesExcess : Bool

/-- The fields of a record. -/
def RecordReader.fields? (r : RecordReader) (names : List String) (json : Json) :
    Option (List (Option Json)) :=
  if r.refusesExcess then json.record? names else json.fields? names

namespace LeaseSettings

/-- Lease settings as a document. -/
def encode (s : LeaseSettings) : Json :=
  .object [("duration_secs", .int s.duration.toInt), ("enabled", .bool s.enabled)]

/-- Reads lease settings. -/
def decode? (r : RecordReader) (json : Json) : Option LeaseSettings := do
  match ← r.fields? ["duration_secs", "enabled"] json with
  | [duration, enabled] =>
    return {
      duration := ← defaulted? 30 int32? duration
      enabled := ← defaulted? true bool? enabled }
  | _ => none

end LeaseSettings

namespace ScheduleSettings

/-- The texts of a schedule as a document. -/
def encode (s : ScheduleSettings) : Json :=
  .object [("interval", .string s.interval), ("initial_delay", .string s.delay)]

/-- Reads the texts of a schedule. -/
def decode? (r : RecordReader) (json : Json) : Option ScheduleSettings := do
  match ← r.fields? ["interval", "initial_delay"] json with
  | [interval, delay] =>
    return {
      interval := ← defaulted? "30s" string? interval
      delay := ← defaulted? "random" string? delay }
  | _ => none

end ScheduleSettings

namespace PoolSettings

/-- Reads a value for each role. The fields stand in the order of `roles` in an array. -/
def perRole? {α : Type} (r : RecordReader) (roles : Role × Role) (fallback : α)
    (read : Json → Option α) (json : Json) : Option (PerRole α) := do
  let key : Role → String := fun | .leader => "leader" | .member => "member"
  match ← r.fields? [key roles.1, key roles.2] json with
  | [first, second] =>
    let first ← defaulted? fallback read first
    let second ← defaulted? fallback read second
    return if roles.1 = .leader then ⟨first, second⟩ else ⟨second, first⟩
  | _ => none

/-- Reads the table with the name of the pool. -/
def pool? (r : RecordReader) (json : Json) : Option String := do
  match ← r.fields? ["name"] json with
  | [name] => defaulted? "flow-pool" string? name
  | _ => none

/-- Reads the table of readiness. -/
def requireLease? (r : RecordReader) (json : Json) : Option Bool := do
  match ← r.fields? ["require_lease"] json with
  | [requireLease] => defaulted? true bool? requireLease
  | _ => none

/-- The names of the four tables of the settings. -/
def tableNames : List String := ["pool", "lease", "schedulers", "readiness"]

/-- Reads the settings from their four tables. -/
def ofTables? (r : RecordReader) : List (Option Json) → Option PoolSettings
  | [pool, lease, schedulers, readiness] => do
    return {
      pool := ← defaulted? "flow-pool" (pool? r) pool
      lease := ← defaulted? ⟨{}, {}⟩ (perRole? r (.member, .leader) {} (LeaseSettings.decode? r))
        lease
      schedule := ← defaulted? ⟨{}, {}⟩
        (perRole? r (.leader, .member) {} (ScheduleSettings.decode? r)) schedulers
      requireLease := ← defaulted? true (requireLease? r) readiness }
  | _ => none

/-- Reads the settings. -/
def decode? (r : RecordReader) (json : Json) : Option PoolSettings := do
  ofTables? r (← r.fields? tableNames json)

/-- The four tables of the settings as members of a document. -/
def tables (s : PoolSettings) : List (String × Json) :=
  [("pool", .object [("name", .string s.pool)]),
    ("lease", .object [("member", s.lease.member.encode), ("leader", s.lease.leader.encode)]),
    ("schedulers",
      .object [("leader", s.schedule.leader.encode), ("member", s.schedule.member.encode)]),
    ("readiness", .object [("require_lease", .bool s.requireLease)])]

/-- The settings as a document. -/
def encode (s : PoolSettings) : Json := .object s.tables

end PoolSettings

end LeasePool
