import LeasePool.Membership.Readiness
import LeasePool.Store.Call

/-!
# Answers

What comes out of the steps of a world: results of operations, errors, times and views of the
state.
-/

namespace LeasePool

/-- What can be seen of a replica. -/
structure ReplicaView where
  ns : String
  pool : String
  leaderJob : String
  memberJob : String
  leaderEnabled : Bool
  memberEnabled : Bool
  leaderLease : String
  /-- The member lease that the process holds. -/
  held : Option String
  membership : Membership
  readiness : ReadinessReport

/-- Reports about the parts of a process. -/
structure ReportView where
  store : String
  service : String
  leader : String
  member : String
  coordinator : String
  /-- By name of the handle. -/
  handles : List (String × String)

/-- The outcome of a step. -/
inductive Answer where
  | nothing
  | flag (value : Bool)
  | text (value : String)
  | lease (value : Option Lease)
  | leases (value : List Lease)
  | workload (value : Option Workload)
  | replicas (value : Option Int32)
  | owners (value : List OwnerReference)
  | names (value : List String)
  | holders (value : List (String × Option String))
  | instant (value : Instant)
  | millis (value : Nat)
  /-- What a wait for a member lease has come to, and the milliseconds it took. -/
  | awaited (result : Except PoolError String) (millis : Nat)
  | view (value : ReplicaView)
  | report (value : ReportView)
  | failure (error : PoolError)
  /-- The operation could not go on. -/
  | crash
  /-- The task has not ended yet. -/
  | pending
  /-- There is nothing of the name. -/
  | unknown

namespace Answer

/-- An error, or what is made of the result. -/
def ofExcept {α : Type} (f : α → Answer) : Except PoolError α → Answer
  | .ok a => f a
  | .error e => .failure e

/-- The reply to a call. -/
def ofReply : (c : StoreCall) → c.Reply → Answer
  | .getLease .., reply => ofExcept .lease reply
  | .createLease _, reply | .updateLease _, reply => ofExcept (fun l => .lease (some l)) reply
  | .listLeases .., reply => ofExcept .leases reply
  | .getWorkload .., reply => ofExcept .workload reply

end Answer

end LeasePool
