import LeasePool.Membership.Event
import LeasePool.Membership.Gate

/-!
# The membership of a process

A process is bound to a member lease, or to none. Whoever needs the lease waits for it at a
gate. Each transition to unbound puts up a new gate, so that a waiter from before is not woken
by a later acquisition that has nothing to do with it.

## Main definitions

* `Coordinator`: the binding, and the gates put up so far.
* `Coordinator.deliver`: what an event does.
* `Coordinator.currentLease?`: the lease the process is bound to.
-/

namespace LeasePool

/-- The binding of a process. -/
inductive Membership where
  | unbound
  | bound (lease : String)
  deriving DecidableEq, Repr

/-- The binding of a process and its gates. -/
structure Coordinator where
  membership : Membership := .unbound
  /-- The gates of earlier times, the oldest first. -/
  past : List Gate := []
  /-- The gate at which waiters register now. -/
  gate : Gate := {}
  deriving DecidableEq, Repr, Inhabited

namespace Coordinator

/-- The lease the process is bound to. -/
def currentLease? (c : Coordinator) : Option String :=
  match c.membership with
  | .unbound => none
  | .bound lease => some lease

/-- The number of the gate at which waiters register now. -/
def gateNumber (c : Coordinator) : Nat := c.past.length

/-- The gate with a number. -/
def gateAt (c : Coordinator) (number : Nat) : Gate :=
  (c.past[number]?).getD c.gate

/-- Replaces the gate with a number. -/
def setGateAt (c : Coordinator) (number : Nat) (gate : Gate) : Coordinator :=
  if number < c.past.length then { c with past := c.past.set number gate }
  else { c with gate }

/-- The coordinator after an event. -/
def deliver (c : Coordinator) (kind : EventKind) (lease : String) : Coordinator :=
  match kind with
  | .acquired => { c with membership := .bound lease, gate := c.gate.openWith lease }
  | .lost | .released => { membership := .unbound, past := c.past ++ [c.gate], gate := {} }

@[simp] theorem currentLease?_deliver {c : Coordinator} {kind : EventKind} {lease : String} :
    (c.deliver kind lease).currentLease? = if kind = .acquired then some lease else none := by
  cases kind <;> rfl

end Coordinator

end LeasePool
