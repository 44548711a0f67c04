import LeasePool.Process.Run

/-!
# The program

Reads the surroundings, lets the process live, and ends as it does. The life of a process alone
with its store is known as soon as it begins; the program takes as long as the process would.
-/

namespace LeasePool.Main

/-- The names of the variables that a process looks at. -/
def variableNames : List String :=
  Setting.all.map (fun s => optionVariable s.name) ++
    Switch.all.map (fun s => optionVariable s.name) ++
    ["POD_NAMESPACE", "POD_NAME", "HOSTNAME", "KUBERNETES_SERVICE_HOST",
      "KUBERNETES_SERVICE_PORT"]

/-- The variables of the environment that a process looks at. -/
def readEnvironment : IO (List (String × String)) := do
  let values ← variableNames.mapM fun name => do return (name, ← IO.getEnv name)
  return values.filterMap fun v => v.2.map fun value => (v.1, value)

/-- What is found under a path. -/
def readFile (path : String) : IO (Except FileFault (List UInt8)) := do
  try return .ok (← IO.FS.readBinFile path).toList
  catch
    | .noFileOrDirectory .. | .noSuchThing .. => return .error .missing
    | _ => return .error .directory

/-- The number of the process, as the system tells it. -/
def readPid : IO String := do
  match ← readFile "/proc/self/stat" with
  | .ok bytes => return String.ofList ((Text.Utf8.decodeLossy bytes).toList.takeWhile Char.isDigit)
  | .error _ => return "0"

/-- The paths that a process looks at, as far as they are known from a configuration. -/
def paths (config : ProcessConfig) : List String :=
  [config.cluster.tokenFile, config.cluster.authorityFile, ApiServer.credentials ++ "/namespace",
    ApiServer.credentials ++ "/token", ApiServer.credentials ++ "/ca.crt"]

/-- The files with the given paths. -/
def readFiles (paths : List String) : IO Files := do
  let found ← paths.mapM fun path => do return (path, ← readFile path)
  return fun path =>
    match found.find? fun f => f.1 = path with
    | some f => f.2
    | none => .error .missing

/-- The surroundings of the process. Which files it looks at depends on its configuration. -/
def readSurroundings (arguments : List String) : IO Surroundings := do
  let env ← readEnvironment
  let lookUp (key : String) : Option String := (env.find? fun e => e.1 = key).map (·.2)
  let pid ← readPid
  match Options.read arguments lookUp with
  | .error _ => return { env := lookUp, files := Files.none, pid }
  | .ok options =>
    let named := (options.value? .config).toList
    let first : Surroundings := { env := lookUp, files := ← readFiles named, pid }
    match first.configure options with
    | .error _ => return first
    | .ok config => return { first with files := ← readFiles (named ++ paths config) }

/-- Ends the program as the process does. -/
def finish : Outcome → IO UInt32
  | .misuse => do
    IO.eprintln "error: unexpected or invalid arguments"
    return 2
  | .help => do
    IO.println "lease-based pool coordination for one replica"
    return 0
  | .template text => do
    IO.println text
    return 0
  | .life .ended => return 0
  | .life (.failed e) => do
    match e with
    | .noLease (.timeout limit) => IO.sleep (UInt32.ofNat limit.ceilMillis)
    | _ => pure ()
    IO.eprintln e.message
    return 1
  | .life .killed | .life .endless => do
    repeat IO.sleep 1000
    return 0

end LeasePool.Main

/-- The program. -/
def main (arguments : List String) : IO UInt32 := do
  let surroundings ← LeasePool.Main.readSurroundings arguments
  let start ← IO.monoNanosNow
  let now : LeasePool.Stamp := .utc ⟨0⟩
  let outcome := surroundings.run arguments now start none
  LeasePool.Main.finish outcome
