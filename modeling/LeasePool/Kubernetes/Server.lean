import LeasePool.Config.Process
import LeasePool.Files
import LeasePool.Http.Message
import LeasePool.Http.Status
import LeasePool.Http.Url
import LeasePool.Json.Reader
import LeasePool.Lease.Codec
import LeasePool.Store.Call
import LeasePool.Text.Layout

/-!
# The API server of a cluster

A store of leases that others share: calls become HTTP requests to the API server of a
Kubernetes cluster, and its responses become replies. The server keeps the versions, so that a
status of 409 is what a lost race looks like.

## Main definitions

* `ApiServer`: a server and the token that requests to it carry.
* `ApiServer.ofAccess`: the server of a configuration, or the one of the cluster that the
  process runs in.
* `ApiServer.request?`, `StoreCall.replyOf`: calls to requests, and responses to replies.
* `ApiServer.exchange`: a call from beginning to end.
-/

namespace LeasePool

/-- A server, and the file with the token that requests to it carry. -/
structure ApiServer where
  /-- The URL, without slashes at its end. -/
  base : String
  tokenFile : Option String := none
  deriving DecidableEq, Repr

namespace ApiServer

/-- Where a cluster puts the credentials of a process. -/
def credentials : String := "/var/run/secrets/kubernetes.io/serviceaccount"

/-- The text without slashes at its end. -/
def withoutSlashes (s : String) : String :=
  String.ofList (s.toList.reverse.dropWhile (· = '/')).reverse

/-- The server of a URL. A file with the authorities that vouch for it has to be readable. -/
def ofUrl (files : Files) (url : String) (tokenFile authorityFile : Option String) :
    Except PoolError ApiServer :=
  let server : ApiServer := { base := withoutSlashes url, tokenFile }
  match authorityFile with
  | none => .ok server
  | some path =>
    match files path with
    | .ok _ => .ok server
    | .error fault => .error (.configuration (.unreadableAuthority path fault.message))

/-- The server of the cluster that the process runs in. -/
def ofCluster (env : String → Option String) (files : Files) : Except PoolError ApiServer :=
  match env "KUBERNETES_SERVICE_HOST" with
  | none => .error (.configuration .noCluster)
  | some host =>
    let port := (env "KUBERNETES_SERVICE_PORT").getD "443"
    let host := if host.toList.contains ':' then "[" ++ host ++ "]" else host
    ofUrl files ("https://" ++ host ++ ":" ++ port) (some (credentials ++ "/token"))
      (some (credentials ++ "/ca.crt"))

/-- The server of a configuration, or the one of the cluster that the process runs in. -/
def ofAccess (access : ClusterAccess) (env : String → Option String) (files : Files) :
    Except PoolError ApiServer :=
  let given (path : String) := if path = "" then none else some path
  if access.apiServer = "" then ofCluster env files
  else ofUrl files access.apiServer (given access.tokenFile) (given access.authorityFile)

/-- The report about a server. -/
def report (s : ApiServer) : String :=
  Text.Layout.summary "KubeStore" [("base_url", Text.quoted s.base)]

/-! ## Requests -/

/-- The group and version of leases. -/
def leaseVersion : String := "coordination.k8s.io/v1"

/-- The path of the leases of a namespace. -/
def leasesPath (ns : String) : String :=
  "/apis/" ++ leaseVersion ++ "/namespaces/" ++ ns ++ "/leases"

/-- The path of a lease. -/
def leasePath (ns name : String) : String := leasesPath ns ++ "/" ++ name

/-- The path of a workload. -/
def workloadPath (kind : WorkloadKind) (ns name : String) : String :=
  match kind with
  | .pod => "/api/v1/namespaces/" ++ ns ++ "/pods/" ++ name
  | .replicaSet => "/apis/apps/v1/namespaces/" ++ ns ++ "/replicasets/" ++ name
  | .deployment => "/apis/apps/v1/namespaces/" ++ ns ++ "/deployments/" ++ name

/-- A lease as it is sent: with its type. There is nothing to send for one with a time beyond
the calendar. -/
def leaseBody? (l : Lease) : Option Json := do
  let claim ← l.claim.encode?
  return Json.ofMembers [("apiVersion", .string leaseVersion), ("kind", .string "Lease"),
    ("metadata", l.metadata.encode), ("spec", claim)]

/-- The request for a call. -/
def request? (s : ApiServer) (token : Option String) :
    StoreCall → Option Http.Request
  | .getLease ns name => some { method := .get, url := s.base ++ leasePath ns name, token }
  | .createLease l => do
    let body ← leaseBody? l
    return { method := .post, url := s.base ++ leasesPath l.metadata.ns, body, token }
  | .updateLease l => do
    let body ← leaseBody? l
    return { method := .put, url := s.base ++ leasePath l.metadata.ns l.name, body, token }
  | .listLeases ns selector =>
    some { method := .get, url := s.base ++ leasesPath ns
           query := [("labelSelector", selector.selectorText)], token }
  | .getWorkload kind ns name =>
    some { method := .get, url := s.base ++ workloadPath kind ns name, token }

end ApiServer

/-! ## Responses -/

/-- What a call is about. -/
def StoreCall.subject : StoreCall → Subject
  | getLease .. | createLease _ | updateLease _ => .lease
  | listLeases .. => .leaseList
  | getWorkload kind .. => .workload kind

/-- How much of a body a report shows. -/
def bodyLimit : Nat := 256

/-- What a response other than a success means for a call. -/
def StoreCall.errorOf (call : StoreCall) (response : Http.Response) : PoolError :=
  if response.status = 409 then .conflict call.subject call.target
  else if response.status = 404 then .notFound call.subject call.target
  else
    let body := String.ofList ((Text.Utf8.decodeLossy response.body).toList.take bodyLimit)
    .unavailable (.refused call.subject call.target response.status
      (Http.statusPhrase response.status) body)

/-- What a response means for a call, where `read` reads the object in its body. -/
def StoreCall.outcome {α : Type} (call : StoreCall) (read : Json → Option α)
    (response : Http.Response) : Except PoolError α :=
  if response.isSuccess then
    match (Json.ofBytes? response.body).bind read with
    | some a => .ok a
    | none => .error (.undecodable call.subject call.target)
  else .error (call.errorOf response)

/-- What a response means for a call to which an absent object is an answer, too. -/
def StoreCall.optional {α : Type} (call : StoreCall) (read : Json → Option α)
    (response : Http.Response) : Except PoolError (Option α) :=
  if response.status = 404 then .ok none else (call.outcome read response).map some

/-- The reply that a response amounts to. -/
def StoreCall.replyOf : (call : StoreCall) → Http.Response → call.Reply
  | call@(.getLease ..), r => call.optional (Lease.decode? Json.depthLimit) r
  | call@(.createLease _), r => call.outcome (Lease.decode? Json.depthLimit) r
  | call@(.updateLease _), r => call.outcome (Lease.decode? Json.depthLimit) r
  | call@(.listLeases ..), r => call.outcome (Lease.decodeList? Json.depthLimit) r
  | call@(.getWorkload kind ..), r => call.optional (Workload.decode? kind Json.depthLimit) r

namespace ApiServer

/-- The token for the next request. It is read anew each time, because it may change. -/
def token (s : ApiServer) (files : Files) : Except PoolError (Option String) :=
  match s.tokenFile with
  | none => .ok none
  | some path =>
    match files.text path with
    | .ok text => .ok (some (Text.trim text))
    | .error fault => .error (.configuration (.unreadableToken path fault.message))

/-- A call from beginning to end: the request, if one is sent, and the reply. `send` yields the
response to a request, or nothing if there is none. Without a request to send, because of a time
beyond the calendar, the call cannot go on. -/
def exchange (s : ApiServer) (files : Files) (send : Http.Request → Option Http.Response)
    (call : StoreCall) : Option (Option Http.Request × call.Reply) := do
  let _ ← s.request? none call
  match s.token files with
  | .error e => return (none, .error e)
  | .ok token =>
    let request ← s.request? token call
    if request.isSendable then
      match send request with
      | none => return (some request, .error (.unavailable .unanswered))
      | some response => return (some request, call.replyOf response)
    else return (none, .error (.unavailable .unanswered))

end ApiServer

end LeasePool
