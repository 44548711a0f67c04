import LeasePool.Process.Health
import LeasePool.Process.Startup
import LeasePool.World.Step

/-!
# Running a process

The life of a process that is alone with its store, from its first deed to its end. The store in
its memory is its own; a server of a cluster is out of reach, and every call to it fails. Time
passes as in every world, from one moment at which something is due to the next.
-/

namespace LeasePool

/-- How the life of a process ends. -/
inductive LifeEnd where
  /-- It was asked to end, and has. -/
  | ended
  | failed (error : StartError)
  /-- It was asked to end before it listened to that. -/
  | killed
  /-- Nobody has asked it to end. -/
  | endless

/-- The name under which the replica of a process is set up. -/
def selfName : String := "self"

/-- The name under which the controller of a role can be stopped. -/
def controllerName : Role → String
  | .leader => "leader"
  | .member => "member"

/-- The world of a process at the beginning. `now` is the time then. -/
def Settled.world (s : Settled) (now : Stamp) : World :=
  let store : MemoryStore := { offline := s.site ≠ .memory }
  let w : World := { scene := { store, clock := Clock.startingAt now, ticking := true } }
  (w.step (.replica selfName s.identity.pod s.identity.ns s.config.settings s.topology)).1

/-- Stops the controllers, in the order in which they were started. -/
def World.stopControllers (w : World) (grace : Nat) : World :=
  let w := (w.step (.shutdown (controllerName .leader) grace)).1
  (w.step (.shutdown (controllerName .member) grace)).1

/-- Does the deeds one after the other. `draw` decides about random delays, and `signal` is the
moment at which the process is asked to end, if it is. -/
def World.live (w : World) (grace draw : Nat) (signal : Option Nat) : List Deed → LifeEnd × World
  | [] => (.ended, w)
  | .control role schedule primed :: deeds =>
    let interval := schedule.interval.ceilMillis
    let delay := (schedule.delay.resolve draw).ceilMillis
    let w := (w.step (.spawn selfName role interval delay (controllerName role) primed)).1
    w.live grace draw signal deeds
  | .reportHealth _ :: deeds => w.live grace draw signal deeds
  | .awaitLease limit :: deeds =>
    let (w, answer) := match signal with
      | none => w.step (.await selfName limit)
      | some moment =>
        let w := (w.step (.awaitAside selfName limit "lease")).1
        let w := (w.step (.sleep (moment - w.scene.elapsed))).1
        w.step (.collect "lease")
    match answer with
    | .awaited (.ok _) _ => w.live grace draw signal deeds
    | .awaited (.error e) _ => (.failed (.noLease e), w.stopControllers grace)
    | _ => (.killed, w)
  | .awaitEnd :: _ =>
    match signal with
    | none => (.endless, w)
    | some moment =>
      let w := (w.step (.sleep (moment - w.scene.elapsed))).1
      (.ended, w.stopControllers grace)
  | .fail error :: _ => (.failed error, w)

/-- The end of a process. -/
def Settled.life (s : Settled) (now : Stamp) (draw : Nat) (signal : Option Nat) :
    LifeEnd × World :=
  (s.world now).live s.grace.ceilMillis draw signal s.deeds

/-- What comes of a process. -/
inductive Outcome where
  | misuse
  | help
  /-- The default configuration, to be written. -/
  | template (text : String)
  | life (ending : LifeEnd)

/-- A process from its arguments on. -/
def Surroundings.run (s : Surroundings) (arguments : List String) (now : Stamp) (draw : Nat)
    (signal : Option Nat) : Outcome :=
  match Options.read arguments s.env with
  | .error .misuse => .misuse
  | .error .help => .help
  | .ok options =>
    if options.isOn .template then .template ({} : ProcessConfig).toToml
    else
      match s.configure options with
      | .error e => .life (.failed e)
      | .ok config =>
        match s.settle config with
        | .error e => .life (.failed e)
        | .ok settled => .life (settled.life now draw signal).1

end LeasePool
