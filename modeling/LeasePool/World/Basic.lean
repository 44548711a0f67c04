import LeasePool.World.Task

/-!
# Worlds

A scene with tasks in it. One task, the foreground, is what somebody waits for; the others go on
beside it. Tasks that can go on do so in the order in which they were woken, each until it has to
wait; those woken by the time in the order in which they began to wait, the foreground before
all others. Time passes only while the foreground waits and nobody can go on, and it jumps to the
next moment for which somebody waits.

## Main definitions

* `World`: the scene and the tasks.
* `World.next?`: the next thing that happens.
* `World.settle`: everything that happens until the foreground has ended and nobody can go on.
-/

namespace LeasePool

/-- A moment for which a task waits. Of two tasks that wait for the same moment, the one with
the lower rank goes first. -/
structure Timer where
  deadline : Nat
  rank : Nat
  deriving DecidableEq, Repr

/-- Whether the timer goes off before another. -/
def Timer.isBefore (a b : Timer) : Bool :=
  a.deadline < b.deadline || (a.deadline = b.deadline && a.rank ≤ b.rank)

/-- A task. -/
structure Task where
  number : Nat
  activity : Activity
  timer : Option Timer := none

/-- A controller that can be stopped. -/
structure Handle where
  task : Nat
  controller : Controller

/-- Who goes on next. -/
inductive Focus where
  | foreground
  | task (number : Nat)

/-- A scene with tasks in it. -/
structure World where
  scene : Scene
  /-- What somebody waits for. -/
  foreground : Option Task := none
  /-- Whether the foreground can go on. -/
  awake : Bool := false
  /-- The tasks that have not ended. -/
  tasks : List Task := []
  /-- The tasks that can go on, in the order in which they were woken. -/
  ready : List Nat := []
  /-- Who has begun to go on. -/
  focus : Option Focus := none
  /-- The next number for a task or a timer. -/
  fresh : Nat := 0
  /-- What the foreground has come to. -/
  outcome : Option Answer := none
  /-- What tasks have come to, by number. -/
  finished : List (Nat × Answer) := []
  /-- The controllers that can be stopped, by name. -/
  handles : List (String × Handle) := []
  /-- The numbers of background tasks, by name. -/
  background : List (String × Nat) := []
  /-- The numbers of replicas, by name. -/
  replicas : List (String × Nat) := []
  /-- Leases that were set aside, by name. -/
  saved : List (String × Lease) := []

namespace World

/-- Whether a task has not ended. -/
def isAlive (w : World) (number : Nat) : Bool :=
  w.tasks.any fun t => t.number = number

/-- Changes a task. -/
def modifyTask (w : World) (number : Nat) (f : Task → Task) : World :=
  { w with tasks := w.tasks.map fun t => if t.number = number then f t else t }

/-- Adds a task to those that can go on. -/
def wake (w : World) (number : Nat) : World :=
  if number ∈ w.ready then w else { w with ready := w.ready ++ [number] }

/-- Adds a task, which can go on. -/
def addTask (w : World) (activity : Activity) : World :=
  { w with
    tasks := w.tasks ++ [{ number := w.fresh, activity }]
    ready := w.ready ++ [w.fresh]
    fresh := w.fresh + 1 }

/-- The task with a timer for the deadline; one that it has already is kept. -/
def arm (w : World) (t : Task) (deadline : Nat) : World × Task :=
  if t.timer.any fun timer => timer.deadline = deadline then (w, t)
  else
    ({ w with fresh := w.fresh + 1 }, { t with timer := some ⟨deadline, w.fresh⟩ })

/-- Starts a controller. A handle of the same name is dropped, which does not stop what it
stands for. -/
def launch (w : World) (l : Launch) : World :=
  let handles := w.handles.filter fun h => h.1 ≠ l.handle
  let handles := handles ++ [(l.handle, { task := w.fresh, controller := l.controller })]
  { w with handles }.addTask (.controlling l.controller false (.created l.delay))

/-- Gives a task up where it stands. -/
def drop (w : World) (number : Nat) : World :=
  let w := w.modifyTask number fun t =>
    let inside := match t.activity with
      | .controlling _ _ (.cycling _ _ run) => (run.replica, run.inside)
      | .controlling c _ _ => (c.replica, none)
      | _ => (0, none)
    { t with activity := .dropped inside.1 inside.2, timer := none }
  w.wake number

/-- Whether a task that waits can go on because of what another one has done. -/
def isCalled (w : World) (t : Task) : Bool :=
  match t.activity with
  | .awaiting replica gate .. => t.number ∈ (w.scene.gate replica gate).woken
  | .joining task .. => !w.isAlive task
  | .controlling _ stopping phase =>
    match phase with
    | .cycling .. => false
    | _ => stopping
  | _ => false

/-- Wakes the tasks that can go on because of what another one has done. -/
def rouse (w : World) : World :=
  let called := w.tasks.filter w.isCalled
  let w := called.foldl (fun w t => w.wake t.number) w
  { w with awake := w.awake || w.foreground.any w.isCalled }

/-! ## What happens -/

/-- Lets the foreground go on. -/
def runForeground (w : World) (t : Task) : World :=
  let (scene, poll) := w.scene.poll w.isAlive t.number t.activity
  let w := { w with scene }
  match poll with
  | .ended answer =>
    { w with foreground := none, awake := false, focus := none, outcome := some answer }.rouse
  | .launching l =>
    let w := { w with
      foreground := none, awake := false, focus := none, outcome := some .nothing }
    (w.launch l).rouse
  | .blocked deadline activity =>
    let (w, t) := w.arm { t with activity } deadline
    { w with foreground := some t, awake := false, focus := none }.rouse
  | .again activity => { w with foreground := some { t with activity, timer := none } }
  | .dropping task activity =>
    { w with foreground := some { t with activity, timer := none } }.drop task

/-- Lets a task go on. -/
def runTask (w : World) (t : Task) : World :=
  let (scene, poll) := w.scene.poll w.isAlive t.number t.activity
  let w := { w with scene }
  let ended (w : World) (answer : Answer) : World :=
    { w with
      tasks := w.tasks.filter fun u => u.number ≠ t.number
      finished := w.finished ++ [(t.number, answer)]
      focus := none }.rouse
  match poll with
  | .ended answer => ended w answer
  | .launching l => ended (w.launch l) .nothing
  | .blocked deadline activity =>
    let (w, t) := w.arm { t with activity } deadline
    { w.modifyTask t.number fun _ => t with focus := none }.rouse
  | .again activity => w.modifyTask t.number fun t => { t with activity, timer := none }
  | .dropping task activity =>
    (w.modifyTask t.number fun t => { t with activity, timer := none }).drop task

/-- The timers that somebody waits for, with the numbers of the tasks. -/
def timers (w : World) : List (Timer × Nat) :=
  w.tasks.filterMap fun t => t.timer.map fun timer => (timer, t.number)

/-- The next moment for which somebody waits. -/
def nextDeadline? (w : World) : Option Nat :=
  let all := (w.foreground.bind (·.timer)).toList ++ w.timers.map (·.1)
  (all.map (·.deadline)).min?

/-- Lets the time pass until `deadline`, and wakes those who wait for it. -/
def passTo (w : World) (deadline : Nat) : World :=
  let w := { w with scene := { w.scene with elapsed := max w.scene.elapsed deadline } }
  let isDue (timer : Timer) : Bool := timer.deadline ≤ deadline
  let due := (w.timers.filter fun t => isDue t.1).mergeSort fun a b => a.1.isBefore b.1
  let w := due.foldl (fun w t => w.wake t.2) w
  let tasks := w.tasks.map fun t => if t.timer.any isDue then { t with timer := none } else t
  let w := { w with tasks }
  match w.foreground with
  | some t =>
    if t.timer.any isDue then
      { w with
        foreground := some { t with timer := none }
        awake := true
        focus := some .foreground }
    else w
  | none => w

/-- The next thing that happens. Nothing does when the foreground has ended and nobody can go
on. -/
def next? (w : World) : Option World :=
  match w.focus with
  | some .foreground =>
    match w.foreground with
    | some t => some (w.runForeground t)
    | none => some { w with focus := none, awake := false }
  | some (.task number) =>
    match w.tasks.find? fun t => t.number = number with
    | some t => some (w.runTask t)
    | none => some { w with focus := none }
  | none =>
    match w.ready with
    | number :: ready => some { w with ready, focus := some (.task number) }
    | [] =>
      if w.foreground.isNone then none
      else if w.awake then some { w with focus := some .foreground }
      else w.nextDeadline?.map w.passTo

/-- The first things that happen, `fuel` at most. -/
def settleWithin (w : World) : (fuel : Nat) → World
  | 0 => w
  | fuel + 1 =>
    match w.next? with
    | some w => w.settleWithin fuel
    | none => w

/-- How many things may happen while somebody waits. -/
def patience : Nat := 1000000000000

/-- Everything that happens until the foreground has ended and nobody can go on. -/
def settle (w : World) : World := w.settleWithin patience

/-- Begins something and waits for it. -/
def await (w : World) (activity : Activity) : World :=
  { w with
    foreground := some { number := w.fresh, activity }
    awake := true
    focus := some .foreground
    fresh := w.fresh + 1
    outcome := none }

end World

end LeasePool
