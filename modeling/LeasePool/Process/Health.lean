import LeasePool.Json.Printer
import LeasePool.Membership.Readiness

/-!
# The health report

What a process says about its health over HTTP. It is live as long as it answers at all, and
ready as its readiness check decides.
-/

namespace LeasePool

/-- An answer to a request about health. -/
structure HealthAnswer where
  status : Nat
  contentType : Option String
  body : String

/-- The path of a request target: what comes before the query. -/
def pathOf (target : String) : String :=
  String.ofList (target.toList.takeWhile fun c => c ≠ '?' && c ≠ '#')

/-- An answer that is a JSON document. -/
def HealthAnswer.ofJson (status : Nat) (json : Json) : HealthAnswer :=
  { status, contentType := some "application/json", body := json.render }

/-- The answer about the readiness of a process. -/
def readinessAnswer (r : ReadinessReport) : HealthAnswer :=
  .ofJson (if r.isUp then 200 else 503) <| Json.ofMembers
    [("name", .string "Lease Acquisition"), ("checks", .array [r.encode]), ("status", r.status)]

/-- The answer to a request for a path. -/
def healthAnswer (check : ReadinessCheck) (c : Coordinator) (path : String) : HealthAnswer :=
  if path = "/health/ready" ∨ path = "/health" then readinessAnswer (check.evaluate c)
  else if path = "/health/live" then .ofJson 200 (.object [("status", .string "UP")])
  else { status := 404, contentType := none, body := "not found" }

end LeasePool
