/-!
# Events

What happens to the member lease of a participant, and a bus that carries events to whoever
subscribes. The bus keeps as many events as it has room for; a subscriber that falls further
behind is told how many it has missed, once, and goes on with the oldest event kept.
-/

namespace LeasePool

/-- What happened to the member lease of a participant. -/
inductive EventKind where
  | acquired
  /-- A renewal failed: the lease may belong to somebody else now. -/
  | lost
  /-- The participant gave the lease up. -/
  | released
  deriving DecidableEq, Repr

/-- The name of a kind of event. -/
def EventKind.name : EventKind → String
  | acquired => "acquired"
  | lost => "lost"
  | released => "released"

/-- Something that happened to the member lease of a participant. -/
structure MemberEvent where
  kind : EventKind
  pool : String
  pod : String
  lease : String
  deriving DecidableEq, Repr

/-- What a subscriber finds on the bus. -/
inductive Reception where
  | event (event : MemberEvent)
  | empty
  /-- So many events came and went unseen. -/
  | lagged (missed : Nat)
  deriving DecidableEq, Repr

/-- The events of a process. -/
structure EventBus where
  /-- How many events the bus keeps. -/
  room : Nat
  /-- All events so far. -/
  log : List MemberEvent := []
  /-- For each subscriber, the number of the event it has to see next. -/
  next : List Nat := []
  deriving DecidableEq, Repr

namespace EventBus

/-- The least power of two that is at least `n`, among those from `power` on. -/
def powerFrom (n : Nat) : (fuel power : Nat) → Nat
  | 0, power => power
  | fuel + 1, power => if n ≤ power then power else powerFrom n fuel (2 * power)

/-- A bus with room for `capacity` events, rounded up to a power of two. A bus without any room
is none. -/
def withCapacity? (capacity : Nat) : Option EventBus :=
  if capacity = 0 then none else some { room := powerFrom capacity capacity 1 }

/-- The room of a bus unless something else is asked for. -/
def defaultCapacity : Nat := 64

/-- Adds an event. -/
def publish (bus : EventBus) (event : MemberEvent) : EventBus :=
  { bus with log := bus.log ++ [event] }

/-- Adds a subscriber, who sees the events from here on. The number of the subscriber is how
many there were before. -/
def subscribe (bus : EventBus) : EventBus :=
  { bus with next := bus.next ++ [bus.log.length] }

/-- What a subscriber finds, and the bus afterwards. A subscriber that does not exist finds
nothing. -/
def receive (bus : EventBus) (subscriber : Nat) : Reception × EventBus :=
  match bus.next[subscriber]? with
  | none => (.empty, bus)
  | some position =>
    let oldest := bus.log.length - bus.room
    if position < oldest then
      (.lagged (oldest - position), { bus with next := bus.next.set subscriber oldest })
    else match bus.log[position]? with
      | some event => (.event event, { bus with next := bus.next.set subscriber (position + 1) })
      | none => (.empty, bus)

end EventBus

end LeasePool
