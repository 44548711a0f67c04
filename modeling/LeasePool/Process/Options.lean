import LeasePool.Config.Process

/-!
# Command line options

The options of the program. Those with a value can be given by an environment variable, too,
which counts if the option is not on the command line. A value may follow its option as the next
argument, unless it begins with a minus sign, or after an equals sign in the same argument. No
option is given twice.
-/

namespace LeasePool

/-- An option with a value. -/
inductive Setting where
  | config
  | poolName
  | store
  | identity
  | ns
  | bind
  | healthPort
  | patience
  | replicas
  | apiServer
  | tokenFile
  | authorityFile
  deriving DecidableEq, Repr

/-- An option without a value. -/
inductive Switch where
  /-- Writes the default configuration. -/
  | template
  | noLeader
  | noMember
  deriving DecidableEq, Repr

namespace Setting

/-- All options with a value. -/
def all : List Setting :=
  [config, poolName, store, identity, ns, bind, healthPort, patience, replicas, apiServer,
    tokenFile, authorityFile]

/-- The name of an option. -/
def name : Setting → String
  | config => "config"
  | poolName => "pool-name"
  | store => "store"
  | identity => "identity"
  | ns => "namespace"
  | bind => "bind"
  | healthPort => "health-port"
  | patience => "await-lease-timeout"
  | replicas => "replicas"
  | apiServer => "kube-api-server"
  | tokenFile => "kube-token-file"
  | authorityFile => "kube-ca-file"

/-- The option of a name. -/
def named? (name : String) : Option Setting := all.find? fun s => s.name = name

/-- The bounds of options whose value is a number. -/
def bounds? : Setting → Option (Int × Int)
  | healthPort => some (0, Int.pow 2 16)
  | replicas => some (-Int.pow 2 31, Int.pow 2 31)
  | _ => none

/-- Whether a text is a value of the option: a number for some, and not the empty path. -/
def accepts (s : Setting) (value : String) : Bool :=
  match s.bounds? with
  | some (low, high) => (Text.integer? low high value.toList).isSome
  | none => s ≠ config || value ≠ ""

end Setting

namespace Switch

/-- All options without a value. -/
def all : List Switch := [template, noLeader, noMember]

/-- The name of an option. -/
def name : Switch → String
  | template => "config-template"
  | noLeader => "no-leader"
  | noMember => "no-member"

/-- The option of a name. -/
def named? (name : String) : Option Switch := all.find? fun s => s.name = name

end Switch

/-- The environment variable for an option. -/
def optionVariable (name : String) : String :=
  "FLOWPOOL_" ++
    String.ofList (name.toList.map fun c => if c = '-' then '_' else c.toUpper)

/-- Why the options cannot be told. -/
inductive OptionFault where
  /-- Help is asked for. -/
  | help
  | misuse
  deriving DecidableEq, Repr

/-! ## Arguments -/

/-- The options that arguments name. -/
structure Arguments where
  settings : List (Setting × String) := []
  switches : List Switch := []

/-- What an argument says by itself. -/
inductive Argument where
  /-- The value comes next. -/
  | opening (setting : Setting)
  | setting (setting : Setting) (value : String)
  | switch (switch : Switch)
  /-- The end of the options. -/
  | ending
  | faulty (fault : OptionFault)
  deriving DecidableEq, Repr

namespace Argument

/-- An argument that begins with two minus signs: a name, and a value after an equals sign. -/
def ofLong (s : List Char) : Argument :=
  let name := String.ofList (s.takeWhile (· ≠ '='))
  let value := match s.dropWhile (· ≠ '=') with
    | [] => none
    | _ :: value => some (String.ofList value)
  match Setting.named? name, Switch.named? name, value with
  | some s, _, some value => .setting s value
  | some s, _, none => .opening s
  | none, some s, none => .switch s
  | _, _, none => if name = "help" then .faulty .help else .faulty .misuse
  | _, _, some _ => .faulty .misuse

/-- What an argument says by itself. The configuration file has a short name, too. -/
def ofText (argument : String) : Argument :=
  match argument.toList with
  | ['-', '-'] => .ending
  | '-' :: '-' :: rest => ofLong rest
  | ['-', 'c'] => .opening .config
  | '-' :: 'c' :: '=' :: value => .setting .config (String.ofList value)
  | '-' :: 'c' :: value => .setting .config (String.ofList value)
  | '-' :: 'h' :: _ => .faulty .help
  | _ => .faulty .misuse

/-- Whether an argument can be the value of an option before it. -/
def isValue (argument : String) : Bool :=
  match argument.toList with
  | '-' :: _ :: _ => false
  | _ => true

end Argument

namespace Arguments

/-- The value of an option. -/
def value? (a : Arguments) (s : Setting) : Option String :=
  (a.settings.find? fun v => v.1 = s).map (·.2)

/-- Adds an option with its value. -/
def set (a : Arguments) (s : Setting) (value : String) : Except OptionFault Arguments :=
  if (a.value? s).isSome ∨ s.accepts value = false then .error .misuse
  else .ok { a with settings := a.settings ++ [(s, value)] }

/-- Adds an option. -/
def switch (a : Arguments) (s : Switch) : Except OptionFault Arguments :=
  if s ∈ a.switches then .error .misuse else .ok { a with switches := a.switches ++ [s] }

/-- Reads further arguments, the first of which is the value of the option that waits for
one. -/
def read (a : Arguments) : (waiting : Option Setting) → List String → Except OptionFault Arguments
  | none, [] => .ok a
  | some _, [] => .error .misuse
  | some s, argument :: rest =>
    if Argument.isValue argument then do
      let a ← a.set s argument
      a.read none rest
    else .error .misuse
  | none, argument :: rest =>
    match Argument.ofText argument with
    | .opening s => a.read (some s) rest
    | .setting s value => do
      let a ← a.set s value
      a.read none rest
    | .switch s => do
      let a ← a.switch s
      a.read none rest
    | .ending => if rest = [] then .ok a else .error .misuse
    | .faulty fault => .error fault

end Arguments

/-! ## Arguments and environment -/

/-- The values of the options. -/
structure Options where
  value? : Setting → Option String
  isOn : Switch → Bool

namespace Options

/-- The value of an option, from the environment if the arguments do not name it. -/
def valueOf (a : Arguments) (env : String → Option String) (s : Setting) :
    Except OptionFault (Option String) :=
  match a.value? s, env (optionVariable s.name) with
  | some value, _ => .ok (some value)
  | none, none => .ok none
  | none, some value => if s.accepts value then .ok (some value) else .error .misuse

/-- Whether an option is on. In the environment it is `true` or `false`. -/
def switchOf (a : Arguments) (env : String → Option String) (s : Switch) :
    Except OptionFault Bool :=
  if s ∈ a.switches then .ok true
  else if s = .template then .ok false
  else match env (optionVariable s.name) with
    | none | some "false" => .ok false
    | some "true" => .ok true
    | some _ => .error .misuse

/-- Reads the options from the arguments and the environment. -/
def read (arguments : List String) (env : String → Option String) :
    Except OptionFault Options := do
  let a ← ({} : Arguments).read none arguments
  let values ← Setting.all.mapM fun s => do return (s, ← valueOf a env s)
  let switches ← Switch.all.mapM fun s => do return (s, ← switchOf a env s)
  return {
    value? := fun s => (values.find? fun v => v.1 = s).bind (·.2)
    isOn := fun s => switches.any fun v => v.1 = s && v.2 }

/-- The value of an option that is a number. -/
def number? (o : Options) (s : Setting) : Option Int := do
  let (low, high) ← s.bounds?
  Text.integer? low high (← o.value? s).toList

/-- A configuration with the options in place of its fields. -/
def apply (o : Options) (c : ProcessConfig) : ProcessConfig :=
  let text (s : Setting) (fallback : String) : String := (o.value? s).getD fallback
  let settings := c.settings
  { store := text .store c.store
    identity := text .identity c.identity
    ns := text .ns c.ns
    bind := text .bind c.bind
    port := ((o.number? .healthPort).map fun n => UInt16.ofNat n.toNat).getD c.port
    patience := text .patience c.patience
    grace := c.grace
    replicas := ((o.number? .replicas).map Int32.ofInt).getD c.replicas
    cluster :=
      { apiServer := text .apiServer c.cluster.apiServer
        tokenFile := text .tokenFile c.cluster.tokenFile
        authorityFile := text .authorityFile c.cluster.authorityFile }
    settings :=
      { settings with
        pool := text .poolName settings.pool
        lease :=
          { leader := { settings.lease.leader with
              enabled := settings.lease.leader.enabled && !o.isOn .noLeader }
            member := { settings.lease.member with
              enabled := settings.lease.member.enabled && !o.isOn .noMember } } } }

end Options

end LeasePool
