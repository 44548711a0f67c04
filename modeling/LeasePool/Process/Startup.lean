import LeasePool.Kubernetes.Server
import LeasePool.Membership.Identity
import LeasePool.Pool.Topology
import LeasePool.Process.Address
import LeasePool.Process.Options

/-!
# Starting a process

What a process does from its start until it waits to be ended. First everything is settled that
does not depend on others: the configuration, the identity and the store. Then come the deeds,
one after the other, until one of them fails. The controller of the leader comes first and has
run a cycle before the next deed, so that there are member leases to claim.

## Main definitions

* `StartError`: why a start fails.
* `Surroundings.configure`, `Surroundings.settle`: what is settled first.
* `Settled.deeds`: the deeds.
-/

namespace LeasePool

/-- Why a start fails. -/
inductive StartError where
  | unreadableConfig (path : String) (fault : FileFault)
  | malformedConfig (path : String)
  | invalidConfig (fault : ConfigError)
  | noIdentity (error : PoolError)
  | noStore (error : PoolError)
  /-- A field turns out to be unusable although the configuration has passed its check. -/
  | unusable (fault : ConfigError)
  | invalidSchedule (role : Role) (fault : ConfigError)
  | invalidAddress (text : String)
  | noLease (error : PoolError)
  deriving DecidableEq, Repr

/-- The report of a failed start. -/
def StartError.message : StartError → String
  | unreadableConfig path fault =>
    "failed to read config file '" ++ path ++ "': " ++ fault.message
  | malformedConfig path => "invalid config file '" ++ path ++ "'"
  | invalidConfig fault => "invalid configuration: " ++ fault.message
  | noIdentity error => "failed to resolve process identity: " ++ error.message
  | noStore error => "failed to set up kubernetes store: " ++ error.message
  | unusable fault => fault.message
  | invalidSchedule .leader fault => "invalid leader scheduler config: " ++ fault.message
  | invalidSchedule .member fault => "invalid member scheduler config: " ++ fault.message
  | invalidAddress text => "invalid bind address '" ++ text ++ "': invalid socket address syntax"
  | noLease error => "failed to bind instance identity: " ++ error.message

/-- What surrounds a process. -/
structure Surroundings where
  env : String → Option String
  files : Files
  /-- The number of the process as text. -/
  pid : String

/-- Where the leases of a process are. -/
inductive StoreSite where
  /-- In its memory. -/
  | memory
  | server (server : ApiServer)
  deriving DecidableEq, Repr

/-- A process of which everything is settled that does not depend on others. -/
structure Settled where
  config : ProcessConfig
  identity : Identity
  site : StoreSite
  /-- How long the start may wait for a member lease. -/
  patience : Span
  /-- How long a running cycle may go on after the end has been asked for. -/
  grace : Span
  deriving DecidableEq, Repr

/-- Something that a process does. -/
inductive Deed where
  /-- Runs a cycle of a role if `primed`, and then starts its controller. -/
  | control (role : Role) (schedule : Schedule) (primed : Bool)
  | reportHealth (address : SocketAddress)
  /-- Waits for a member lease. -/
  | awaitLease (limit : Span)
  /-- Waits to be ended, and stops the controllers then. -/
  | awaitEnd
  | fail (error : StartError)
  deriving DecidableEq, Repr

/-- The result, with an error as the cause of a failed start. -/
def orFail {ε α : Type} (cause : ε → StartError) : Except ε α → Except StartError α
  | .ok a => .ok a
  | .error e => .error (cause e)

namespace Surroundings

/-- The configuration: the defaults, then the file, then the options. -/
def configure (s : Surroundings) (o : Options) : Except StartError ProcessConfig := do
  let config : ProcessConfig ← match o.value? .config with
    | none => .ok {}
    | some path => do
      let text ← orFail (.unreadableConfig path) (s.files.text path)
      match ProcessConfig.ofToml? text with
      | some config => .ok config
      | none => .error (.malformedConfig path)
  let config := o.apply config
  orFail .invalidConfig config.check
  return config

/-- Where a process looks for its identity. -/
def identitySources (s : Surroundings) (config : ProcessConfig) : IdentitySources :=
  { env := s.env
    namespaceFile := (s.files.text (ApiServer.credentials ++ "/namespace")).toOption
    fallback := config.fallbackNamespace? }

/-- Settles who the process is and where its leases are. -/
def settle (s : Surroundings) (config : ProcessConfig) : Except StartError Settled := do
  let store ← orFail .unusable (StoreKind.parse config.store)
  let kind ← orFail .unusable (IdentityKind.parse config.identity)
  let patience ← orFail .unusable (parseSpan config.patience)
  let grace ← orFail .unusable (parseSpan config.grace)
  let identity ← match kind with
    | .cluster => orFail .noIdentity (s.identitySources config).cluster
    | .alone => .ok ((s.identitySources config).development s.pid)
  let site ← match store with
    | .memory => .ok .memory
    | .kubernetes => (orFail .noStore (ApiServer.ofAccess config.cluster s.env s.files)).map .server
  return { config, identity, site, patience, grace }

end Surroundings

namespace Settled

/-- Where the process learns about its pool. -/
def topology (s : Settled) : Topology :=
  match s.site with
  | .memory => .fixed s.config.replicas
  | .server _ => .deployment s.identity

/-- Starts the controller of a role, if the process takes the role. -/
def control (s : Settled) (role : Role) (primed : Bool) (rest : List Deed) : List Deed :=
  if (s.config.settings.lease.get role).enabled then
    match (s.config.settings.schedule.get role).schedule with
    | .ok schedule => .control role schedule primed :: rest
    | .error fault => [.fail (.invalidSchedule role fault)]
  else rest

/-- Reports health, if there is a port for it. -/
def reportHealth (s : Settled) (rest : List Deed) : List Deed :=
  match s.config.healthPort? with
  | none => rest
  | some port =>
    let text := s.config.bind ++ ":" ++ toString port.toNat
    match SocketAddress.parse? text with
    | some address => .reportHealth address :: rest
    | none => [.fail (.invalidAddress text)]

/-- What the process does next, up to the end or to the first failure that is certain. -/
def deeds (s : Settled) : List Deed :=
  s.control .leader true <| s.control .member false <| s.reportHealth <|
    if s.config.settings.lease.member.enabled then [.awaitLease s.patience, .awaitEnd]
    else [.awaitEnd]

end Settled

end LeasePool
