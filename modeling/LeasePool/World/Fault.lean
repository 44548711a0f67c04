import LeasePool.Store.Memory

/-!
# Faults

Disturbances of the calls to a store, armed in advance. A fault waits for calls of a kind, lets
some of them pass, and then acts on some: before the store sees the call, or after.
-/

namespace LeasePool

/-- An error that takes the place of a reply. -/
inductive FalseReply where
  | conflict
  | notFound
  | unavailable
  | configuration
  | timeout
  | undecodable
  deriving DecidableEq, Repr

/-- The error, in reply to a call. -/
def FalseReply.error (call : StoreCall) : FalseReply → PoolError
  | conflict => .conflict .lease call.target
  | notFound => .notFound .lease call.target
  | unavailable => .unavailable (.other "injected")
  | configuration => .configuration (.other "injected")
  | timeout => .timeout (.ofMillis 1500)
  | undecodable => .undecodable .lease call.target

/-- Something that a fault does. -/
inductive Act where
  /-- Replies with an error, and leaves all other acts undone. -/
  | fail (reply : FalseReply)
  | remove (ns name : String)
  | put (lease : Lease)
  | switch (offline : Bool)
  /-- Moves the clock. -/
  | advance (span : Span)
  /-- Waits for so many milliseconds. -/
  | delay (millis : Nat)
  deriving DecidableEq

/-- A disturbance of calls. -/
structure Fault where
  method : StoreMethod
  /-- The target of the calls, if not every target will do. -/
  target : Option String := none
  /-- How many calls pass undisturbed. -/
  skip : Nat := 0
  /-- On how many calls the fault acts after that. -/
  times : Nat := 1
  /-- Whether it acts after the store has seen the call. -/
  late : Bool := false
  acts : List Act
  deriving DecidableEq

namespace Fault

/-- Whether the fault counts the call. -/
def concerns (f : Fault) (call : StoreCall) : Bool :=
  f.method = call.method && f.target.all (· == call.target) && 0 < f.times

/-- The fault after a call. -/
def counted (f : Fault) (call : StoreCall) : Fault :=
  if !f.concerns call then f
  else if 0 < f.skip then { f with skip := f.skip - 1 }
  else { f with times := f.times - 1 }

/-- Whether the fault acts on the call. -/
def acting (f : Fault) (call : StoreCall) : Bool :=
  f.concerns call && f.skip = 0

/-- What the faults do early, and what they do late, in the order in which they were armed. -/
def due (faults : List Fault) (call : StoreCall) : List Act × List Act :=
  let acting := faults.filter (·.acting call)
  ((acting.filter (!·.late)).flatMap (·.acts), (acting.filter (·.late)).flatMap (·.acts))

end Fault

end LeasePool
