import LeasePool.Error
import LeasePool.Membership.Readiness
import LeasePool.Text.Blank

/-!
# Identity

How a process finds out who it is. The environment comes first, then the namespace file that is
mounted into pods, then the namespace of the configuration. A blank value counts as none, and a
value that is taken is trimmed. In a cluster a missing value is an error; for development there
are stand-ins.
-/

namespace LeasePool

/-- Where a process looks for its identity. -/
structure IdentitySources where
  /-- The variables of the environment. -/
  env : String → Option String
  /-- The content of the namespace file, if it can be read as text. -/
  namespaceFile : Option String := none
  /-- The namespace of the configuration. -/
  fallback : Option String := none

namespace IdentitySources

/-- A variable, unless it is blank. -/
def lookUp? (s : IdentitySources) (key : String) : Option String :=
  (s.env key).bind Text.nonBlank?

/-- The namespace from the first source that has one. -/
def namespace? (s : IdentitySources) : Option String :=
  (s.lookUp? "POD_NAMESPACE").or <|
    (s.namespaceFile.bind Text.nonBlank?).or (s.fallback.bind Text.nonBlank?)

/-- The name of the pod from the first variable that has one. -/
def podName? (s : IdentitySources) : Option String :=
  (s.lookUp? "POD_NAME").or (s.lookUp? "HOSTNAME")

/-- The identity of a process in a cluster. -/
def cluster (s : IdentitySources) : Except PoolError Identity :=
  match s.namespace?, s.podName? with
  | none, _ => .error (.configuration .noNamespace)
  | some _, none => .error (.configuration .noPodName)
  | some ns, some pod => .ok { ns, pod }

/-- The identity of a process outside a cluster: the same sources but for the namespace of the
configuration, and stand-ins for what is missing. -/
def development (s : IdentitySources) (pid : String) : Identity :=
  let s := { s with fallback := none }
  { ns := s.namespace?.getD "default", pod := s.podName?.getD ("dev-" ++ pid) }

end IdentitySources

end LeasePool
