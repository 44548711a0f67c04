import LeasePool.Lease.Metadata

/-!
# Names and labels of pool leases

A pool has one leader lease and a member lease for each ordinal. Names tell them apart for
people, labels for the store: a member scan selects by label, never by name.
-/

namespace LeasePool

/-- What a lease of a pool is for. -/
inductive Role where
  | leader
  | member
  deriving DecidableEq, Repr

/-- The label with the name of the pool. -/
def poolLabel : String := "io.quarkiverse.flow.durable.k8s/pool"

/-- The label that tells the leader lease from member leases. -/
def isLeaderLabel : String := "io.quarkiverse.flow.durable.k8s/is-leader"

/-- The labels that every lease of every pool has. -/
def baseLabels : List (String × String) :=
  [("app.kubernetes.io/managed-by", "quarkus-flow"), ("app.kubernetes.io/component", "durable")]

/-- The name of the leader lease of a pool. -/
def leaderLeaseName (pool : String) : String :=
  "flow-pool-leader-" ++ pool

/-- The name of the member lease of a pool with an ordinal, which has two digits at least. -/
def memberLeaseName (pool : String) (ordinal : Nat) : String :=
  "flow-pool-member-" ++ pool ++ "-" ++ String.ofList (Text.padded 2 ordinal)

/-- The value of the label that tells the roles apart. -/
def Role.labelValue : Role → String
  | .leader => "true"
  | .member => "false"

/-- The labels that this library keeps on the leases of a pool. -/
def Role.labels (role : Role) (pool : String) : Labels :=
  ((Table.ofList baseLabels).insert isLeaderLabel role.labelValue).insert poolLabel pool

/-- Selects the member leases of a pool. -/
def memberSelector (pool : String) : Labels :=
  .ofList [(poolLabel, pool), (isLeaderLabel, Role.member.labelValue)]

/-- Whether `labels` has every entry of the selector. -/
def Labels.selects (selector labels : Labels) : Bool :=
  selector.entries.all fun e => labels.get? e.1 = some e.2

/-- A selector as text: `key=value` pairs with commas between them. -/
def Labels.selectorText (selector : Labels) : String :=
  String.intercalate "," (selector.entries.map fun e => e.1 ++ "=" ++ e.2)

end LeasePool
