import LeasePool.World.Answer
import LeasePool.World.Scene
import LeasePool.World.Ticker

/-!
# Tasks

What goes on in a world side by side: operations, waits for a member lease, the loops of
controllers, and the two halves of a shutdown. A task runs until it has to wait, for a time or
for something that another task does, and is looked at again when that has come.

A controller first waits for its initial delay and then runs one cycle at each tick. It looks
for a request to stop before it looks at the time, and only between cycles. A shutdown requests
the stop and waits for the controller, for the grace period at most, after which the controller
is dropped where it stands; then it tries to release what the controller holds, once, and for
the grace period at most.
-/

namespace LeasePool

/-- Whose cycles a controller runs, and how often. -/
structure Controller where
  replica : Nat
  role : Role
  /-- Milliseconds between cycles. -/
  interval : Nat
  deriving DecidableEq, Repr

/-- Where the loop of a controller stands. -/
inductive Phase where
  | created (delay : Nat)
  | delaying (deadline : Nat)
  | between (ticker : Ticker)
  /-- A cycle is under way, and waits for the deadline. -/
  | cycling (ticker : Ticker) (deadline : Nat) (run : Running Unit)

/-- A controller that is to be started. -/
structure Launch where
  controller : Controller
  delay : Nat
  /-- The name under which it can be stopped. -/
  handle : String

/-- What an operation that has ended comes to. -/
inductive Ending where
  | answer
  /-- The milliseconds that it took. -/
  | duration
  | launch (l : Launch)

/-- What a task is doing. -/
inductive Activity where
  /-- Runs operations of processes one after the other, the first of which waits for the
  deadline. -/
  | operating (deadline : Nat) (run : Running Answer) (queue : List (Nat × Operation Answer))
      (start : Nat) (ending : Ending)
  | sleeping (deadline : Nat)
  /-- Waits at a gate of a replica. -/
  | awaiting (replica gate : Nat) (wait : Wait) (limit : Span) (deadline start : Nat)
  /-- Waits for a controller that has been told to stop. -/
  | joining (task : Nat) (controller : Controller) (grace deadline start : Nat)
  /-- Releases what the controller holds; the release itself waits for `next`. -/
  | releasing (next : Nat) (run : Running Unit) (deadline start : Nat)
  | controlling (controller : Controller) (stopping : Bool) (phase : Phase)
  /-- Is given up where it stands. -/
  | dropped (replica : Nat) (inside : Option Role)

/-- How far a task has come. -/
inductive Poll where
  | ended (answer : Answer)
  /-- The task has ended, and a controller is to be started. -/
  | launching (launch : Launch)
  /-- The task waits, for the deadline at most. -/
  | blocked (deadline : Nat) (activity : Activity)
  /-- The task goes on at once. -/
  | again (activity : Activity)
  /-- The task goes on at once, and another one is to be dropped. -/
  | dropping (task : Nat) (activity : Activity)

namespace Scene

/-- The gate of a replica with a number. -/
def gate (s : Scene) (replica number : Nat) : Gate :=
  match s.replicas[replica]? with
  | some r => r.coordinator.gateAt number
  | none => {}

/-- The operation that releases what a role of a replica holds. -/
def releaseOf (s : Scene) (replica : Nat) (role : Role) : Operation Unit :=
  match s.replicas[replica]? with
  | some r => r.participant.release role
  | none => .done ()

/-- The operation that runs a cycle of a role of a replica. -/
def cycleOf (s : Scene) (replica : Nat) (role : Role) : Operation Unit :=
  match s.replicas[replica]? with
  | some r => r.participant.cycle role
  | none => .done ()

/-- The next step of operations in a row. -/
def pollOperating (s : Scene) (run : Running Answer) (queue : List (Nat × Operation Answer))
    (start : Nat) (ending : Ending) : Scene × Poll :=
  match s.resume run with
  | (s, .waiting millis run) =>
    let deadline := s.elapsed + millis
    (s, .blocked deadline (.operating deadline run queue start ending))
  | (s, .crashed) => (s, .ended .crash)
  | (s, .ended answer) =>
    match queue with
    | (replica, operation) :: queue =>
      (s, .again (.operating s.elapsed (.start replica operation) queue start ending))
    | [] =>
      match ending with
      | .answer => (s, .ended answer)
      | .duration => (s, .ended (.millis (s.elapsed - start)))
      | .launch launch => (s, .launching launch)

/-- The next step of a wait for a member lease. The gate comes before the time. -/
def pollAwaiting (s : Scene) (waiter replica number : Nat) (wait : Wait) (limit : Span)
    (deadline start : Nat) : Scene × Poll :=
  let (gate, wait) := (s.gate replica number).poll waiter wait
  let s := s.modifyReplica replica fun r =>
    { r with coordinator := r.coordinator.setGateAt number gate }
  match wait with
  | .passed lease => (s, .ended (.awaited (.ok lease) (s.elapsed - start)))
  | wait =>
    if deadline ≤ s.elapsed then
      (s, .ended (.awaited (.error (.timeout limit)) (s.elapsed - start)))
    else (s, .blocked deadline (.awaiting replica number wait limit deadline start))

/-- The next step of the release that ends a shutdown. The release comes before the time. -/
def pollReleasing (s : Scene) (run : Running Unit) (deadline start : Nat) : Scene × Poll :=
  match s.resume run with
  | (s, .ended ()) => (s, .ended (.millis (s.elapsed - start)))
  | (s, .crashed) => (s, .ended .crash)
  | (s, .waiting millis run) =>
    if deadline ≤ s.elapsed then
      (s.abandon run.replica run.inside, .ended (.millis (s.elapsed - start)))
    else
      let next := s.elapsed + millis
      (s, .blocked (min next deadline) (.releasing next run deadline start))

/-- The next step of a cycle of a controller. -/
def pollCycle (s : Scene) (c : Controller) (stopping : Bool) (ticker : Ticker)
    (run : Running Unit) : Scene × Poll :=
  match s.resume run with
  | (s, .ended ()) => (s, .again (.controlling c stopping (.between ticker)))
  | (s, .crashed) => (s, .ended .crash)
  | (s, .waiting millis run) =>
    let deadline := s.elapsed + millis
    (s, .blocked deadline (.controlling c stopping (.cycling ticker deadline run)))

/-- The next step of the loop of a controller. Between cycles a request to stop comes before the
time. A controller without an interval has no ticks to wait for. -/
def pollController (s : Scene) (c : Controller) (stopping : Bool) : Phase → Scene × Poll
  | .cycling ticker deadline run =>
    if s.elapsed < deadline then
      (s, .blocked deadline (.controlling c stopping (.cycling ticker deadline run)))
    else s.pollCycle c stopping ticker run
  | phase =>
    if stopping then (s, .ended .nothing)
    else match phase with
      | .created delay => (s, .again (.controlling c stopping (.delaying (s.elapsed + delay))))
      | .delaying deadline =>
        if s.elapsed < deadline then
          (s, .blocked deadline (.controlling c stopping (.delaying deadline)))
        else if c.interval = 0 then (s, .ended .crash)
        else (s, .again (.controlling c stopping (.between ⟨s.elapsed, c.interval⟩)))
      | .between ticker =>
        if ticker.isDue s.elapsed then
          s.pollCycle c stopping (ticker.after s.elapsed)
            (.start c.replica (s.cycleOf c.replica c.role))
        else (s, .blocked ticker.deadline (.controlling c stopping (.between ticker)))
      | .cycling .. => (s, .ended .nothing)

/-- The next step of a task with a number; `alive` tells which tasks have not ended. -/
def poll (s : Scene) (alive : Nat → Bool) (number : Nat) : Activity → Scene × Poll
  | .operating deadline run queue start ending =>
    if s.elapsed < deadline then (s, .blocked deadline (.operating deadline run queue start ending))
    else s.pollOperating run queue start ending
  | .sleeping deadline =>
    if s.elapsed < deadline then (s, .blocked deadline (.sleeping deadline))
    else (s, .ended .nothing)
  | .awaiting replica gate wait limit deadline start =>
    s.pollAwaiting number replica gate wait limit deadline start
  | .joining task c grace deadline start =>
    let release := Activity.releasing s.elapsed
      (.start c.replica (s.releaseOf c.replica c.role)) (s.elapsed + grace) start
    if !alive task then (s, .again release)
    else if deadline ≤ s.elapsed then (s, .dropping task release)
    else (s, .blocked deadline (.joining task c grace deadline start))
  | .releasing next run deadline start =>
    if next ≤ s.elapsed then s.pollReleasing run deadline start
    else if deadline ≤ s.elapsed then
      (s.abandon run.replica run.inside, .ended (.millis (s.elapsed - start)))
    else (s, .blocked (min next deadline) (.releasing next run deadline start))
  | .controlling c stopping phase => s.pollController c stopping phase
  | .dropped replica inside => (s.abandon replica inside, .ended .nothing)

end Scene

end LeasePool
