import LeasePool.Lease.Metadata
import LeasePool.Time.Span

/-!
# Errors

What can go wrong between a participant and the store, and how it is reported. A lost race is
among the errors of the store; the operations of this library turn it into an answer.
-/

namespace LeasePool

/-- What a request to the store was about. -/
inductive Subject where
  | lease
  | leaseList
  | workload (kind : WorkloadKind)
  deriving DecidableEq, Repr

/-- The name of a subject in reports. -/
def Subject.name : Subject → String
  | lease => "lease"
  | leaseList => "lease list"
  | workload kind => kind.name

/-- Why a store did not answer as it should. -/
inductive Outage where
  /-- The store in memory has been switched off. -/
  | offline
  /-- The server answered with a status that means none of the expected outcomes. -/
  | refused (subject : Subject) (name : String) (status : Nat) (reason body : String)
  /-- There was no answer, or the request could not be sent. -/
  | unanswered
  | other (report : String)
  deriving DecidableEq, Repr

/-- What is missing from the surroundings of a participant. -/
inductive Misconfiguration where
  | noNamespace
  | noPodName
  | noCluster
  | unreadableAuthority (path why : String)
  | unreadableToken (path why : String)
  | other (report : String)
  deriving DecidableEq, Repr

/-- An error of an operation on the leases of a pool. -/
inductive PoolError where
  /-- The object was changed since it was read, or exists already. -/
  | conflict (subject : Subject) (name : String)
  | notFound (subject : Subject) (name : String)
  | unavailable (outage : Outage)
  | configuration (cause : Misconfiguration)
  /-- No member lease was acquired for so long. -/
  | timeout (limit : Span)
  /-- The store answered with something that is not such an object. -/
  | undecodable (subject : Subject) (name : String)
  deriving DecidableEq, Repr

/-- The report of an outage. -/
def Outage.message : Outage → String
  | offline => "memory store offline"
  | refused subject name status reason body =>
    subject.name ++ " " ++ name ++ ": HTTP " ++ toString status ++ " " ++ reason ++ ": " ++ body
  | unanswered => "the request was not answered"
  | other report => report

/-- The report of a misconfiguration. -/
def Misconfiguration.message : Misconfiguration → String
  | noNamespace =>
    "cannot determine the current namespace. set POD_NAMESPACE via the downward API, mount the " ++
      "service account namespace file, or configure the client namespace explicitly"
  | noPodName =>
    "cannot determine the current pod name. set POD_NAME via the downward API or make sure " ++
      "HOSTNAME is set"
  | noCluster =>
    "KUBERNETES_SERVICE_HOST is not set. outside a cluster, set kubernetes.api_server"
  | unreadableAuthority path why => "failed to read CA bundle '" ++ path ++ "': " ++ why
  | unreadableToken path why => "failed to read token '" ++ path ++ "': " ++ why
  | other report => report

namespace PoolError

/-- The report of an error. -/
def message : PoolError → String
  | conflict subject name => "conflict writing " ++ subject.name ++ " " ++ name
  | notFound subject name => subject.name ++ " " ++ name ++ " not found"
  | unavailable outage => "resource store unavailable: " ++ outage.message
  | configuration cause => "invalid pool configuration: " ++ cause.message
  | timeout limit => "timed out waiting for member lease after " ++ limit.text
  | undecodable subject name => "failed to decode " ++ subject.name ++ " " ++ name

/-- Whether the error is a lost race. -/
def isConflict : PoolError → Bool
  | conflict .. => true
  | _ => false

/-- Whether the error is the absence of the object. -/
def isNotFound : PoolError → Bool
  | notFound .. => true
  | _ => false

end PoolError

end LeasePool
