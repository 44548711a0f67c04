import LeasePool.Membership.Event
import LeasePool.Store.Call

/-!
# Operations

What a participant does, as a tree of the requests it makes. At a call to the store everybody
else may act before the answer comes; what an operation asks of its own process is answered at
once. The same operation can be run alone, interleaved with others, under faults, or given up at
any of its calls.

## Main definitions

* `Query`: what an operation asks of its own process.
* `Operation`: a tree of calls and queries.
* `Attempt`: an operation that may end with an error.
-/

namespace LeasePool

/-- What an operation asks of the process it runs in. -/
inductive Query where
  /-- Reads the clock. -/
  | now
  /-- The deployment that the process is known to belong to. -/
  | knownDeployment
  | setKnownDeployment (name : Option String)
  /-- The member lease that the process holds. -/
  | heldLease
  /-- Notes that the process holds a lease, or no longer does, and tells the listeners. -/
  | announce (kind : EventKind) (lease : String)
  /-- Begins a cycle, unless one of the role is running. -/
  | enter (role : Role)
  /-- Ends the cycle. -/
  | leave (role : Role)
  deriving DecidableEq, Repr

/-- What a query is answered with. -/
abbrev Query.Answer : Query → Type
  | now => Instant
  | knownDeployment | heldLease => Option String
  | enter _ => Bool
  | setKnownDeployment _ | announce .. | leave _ => Unit

/-- A tree of requests. -/
inductive Operation (α : Type) where
  | done (result : α)
  /-- The operation cannot go on, because a date has left the calendar, or a count its bounds. -/
  | crash
  | call (call : StoreCall) (next : call.Reply → Operation α)
  | ask (query : Query) (next : query.Answer → Operation α)

namespace Operation

/-- Goes on with what `next` makes of the result. -/
def bind {α β : Type} : Operation α → (α → Operation β) → Operation β
  | done result, next => next result
  | crash, _ => crash
  | call c rest, next => call c fun reply => (rest reply).bind next
  | ask q rest, next => ask q fun answer => (rest answer).bind next

instance : Monad Operation where
  pure := done
  bind := bind

@[simp] theorem pure_eq_done {α : Type} (a : α) : (pure a : Operation α) = done a := rfl

@[simp] theorem bind_eq_bind {α β : Type} (x : Operation α) (f : α → Operation β) :
    x >>= f = x.bind f := rfl

@[simp] theorem done_bind {α β : Type} (a : α) (f : α → Operation β) :
    (done a).bind f = f a := rfl

@[simp] theorem crash_bind {α β : Type} (f : α → Operation β) :
    (crash : Operation α).bind f = crash := rfl

@[simp] theorem call_bind {α β : Type} (c : StoreCall) (next : c.Reply → Operation α)
    (f : α → Operation β) :
    (call c next).bind f = call c fun reply => (next reply).bind f := rfl

@[simp] theorem ask_bind {α β : Type} (q : Query) (next : q.Answer → Operation α)
    (f : α → Operation β) :
    (ask q next).bind f = ask q fun answer => (next answer).bind f := rfl

@[simp] theorem bind_done {α : Type} (x : Operation α) : x.bind done = x := by
  induction x with
  | done a => rfl
  | crash => rfl
  | call c next ih => simp [ih]
  | ask q next ih => simp [ih]

/-- Going on twice is going on with what the second makes of the first. -/
theorem bind_assoc {α β γ : Type} (x : Operation α) (f : α → Operation β)
    (g : β → Operation γ) : (x.bind f).bind g = x.bind fun a => (f a).bind g := by
  induction x with
  | done a => rfl
  | crash => rfl
  | call c next ih => simp [ih]
  | ask q next ih => simp [ih]

instance : LawfulMonad Operation :=
  LawfulMonad.mk' Operation bind_done (fun _ _ => rfl) bind_assoc

end Operation

/-- An operation that may end with an error. -/
abbrev Attempt (α : Type) : Type := ExceptT PoolError Operation α

namespace Attempt

/-- Calls the store. -/
def call (c : StoreCall) : Attempt c.Answer := ExceptT.mk (.call c .done)

/-- Calls the store and takes an error for an answer, too. -/
def reply (c : StoreCall) : Attempt c.Reply := ExceptT.mk (.call c fun r => .done (.ok r))

/-- Tries something and takes its error for an answer, too. -/
def outcome {α : Type} (x : Attempt α) : Attempt (Except PoolError α) :=
  ExceptT.mk (x.run.bind fun result => .done (.ok result))

/-- Asks the process. -/
def ask (q : Query) : Attempt q.Answer := ExceptT.mk (.ask q fun answer => .done (.ok answer))

/-- The value, if there is one. Without one the operation cannot go on. -/
def orCrash {α : Type} : Option α → Attempt α
  | some a => pure a
  | none => ExceptT.mk .crash

end Attempt

end LeasePool
