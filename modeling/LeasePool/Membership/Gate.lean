/-!
# Gates

A gate opens once, with the name of a lease, and stays open. Those who wait for it go through
three steps: they register, look whether the gate is open, and park if it is not. Opening wakes
those that are registered, so that an opening between the steps of a waiter is not missed.
-/

namespace LeasePool

/-- A gate for waiters, who are known by numbers. -/
structure Gate where
  /-- The name the gate was opened with. -/
  name : Option String := none
  /-- The waiters that the next opening wakes. -/
  registered : List Nat := []
  /-- The waiters that an opening has woken. -/
  woken : List Nat := []
  deriving DecidableEq, Repr, Inhabited

/-- Where a waiter stands. -/
inductive Wait where
  | arriving
  | registered
  | parked
  | passed (name : String)
  deriving DecidableEq, Repr

namespace Gate

/-- Opens the gate, which keeps the first name it was opened with, and wakes the registered
waiters. -/
def openWith (gate : Gate) (name : String) : Gate :=
  { name := some (gate.name.getD name)
    registered := []
    woken := gate.woken ++ gate.registered }

/-- One step of a waiter. A parked one stays where it is until it is woken. -/
def step (gate : Gate) (waiter : Nat) : Wait → Gate × Wait
  | .arriving =>
    ({ gate with registered := gate.registered ++ [waiter], woken := gate.woken.erase waiter },
      .registered)
  | .registered =>
    match gate.name with
    | some name => (gate, .passed name)
    | none => (gate, .parked)
  | .parked => if waiter ∈ gate.woken then (gate, .arriving) else (gate, .parked)
  | .passed name => (gate, .passed name)

/-- So many steps of a waiter, one after the other. -/
def steps (gate : Gate) (waiter : Nat) (wait : Wait) : (count : Nat) → Gate × Wait
  | 0 => (gate, wait)
  | count + 1 =>
    let (gate, wait) := gate.step waiter wait
    gate.steps waiter wait count

/-- As many steps as a waiter takes without a pause: from arriving or from being woken it is
past the gate, or parked, after four. -/
def poll (gate : Gate) (waiter : Nat) (wait : Wait) : Gate × Wait :=
  gate.steps waiter wait 4

end Gate

end LeasePool
