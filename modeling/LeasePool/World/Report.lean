import LeasePool.Text.Layout
import LeasePool.World.Basic

/-!
# Reports about a world

Short texts about the state of the parts of a process.
-/

namespace LeasePool

namespace Report

open Text.Layout

/-- The report about a store. -/
def store (s : MemoryStore) : String :=
  summary "MemoryStore"
    [("leases", toString s.leases.entries.length), ("writes", toString s.writes)]

/-- The report about what a pool is. -/
def pool (p : Pool) : String :=
  summary "LeaseService" [("config", whole "LeaseServiceConfig" [
    ("namespace", Text.quoted p.ns), ("pool_name", Text.quoted p.name),
    ("member_duration_secs", toString p.duration.member.toInt),
    ("leader_duration_secs", toString p.duration.leader.toInt)])]

/-- The report about a leader. -/
def leader (p : Participant) : String :=
  summary "LeaderController"
    [("pod_name", Text.quoted p.pod), ("enabled", bool p.enabled.leader)]

/-- The report about a member. -/
def member (p : Participant) (held : Option String) : String :=
  summary "MemberController"
    [("pod_name", Text.quoted p.pod), ("enabled", bool p.enabled.member),
      ("lease_name", option (held.map Text.quoted))]

/-- The report about a membership. -/
def coordinator (c : Coordinator) : String :=
  whole "MembershipCoordinator" [("membership", match c.membership with
    | .unbound => "Unbound"
    | .bound lease => "Bound(" ++ Text.quoted lease ++ ")")]

/-- The report about a controller that can be stopped. -/
def handle (job : String) : String :=
  summary "ControllerHandle" [("job", Text.quoted job)]

end Report

end LeasePool
