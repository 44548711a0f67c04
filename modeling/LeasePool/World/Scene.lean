import LeasePool.Membership.Coordinator
import LeasePool.Pool.Guard
import LeasePool.Pool.Participant
import LeasePool.Time.Clock
import LeasePool.World.Fault

/-!
# Scenes

Participants over one store in memory, with one clock. A scene answers what an operation asks of
its process, and puts its calls to the store through the faults. A call can be held up by a
delay; then the operation is suspended, and the scene goes on without it.

## Main definitions

* `Replica`: a participant and what its process remembers.
* `Scene`: the replicas, the store, the clock and the faults.
* `Running`: an operation under way.
* `Scene.resume`: runs an operation up to its end or to the next delay.
-/

namespace LeasePool

/-- A participant and what its process remembers. -/
structure Replica where
  participant : Participant
  check : ReadinessCheck
  /-- The deployment that the process is known to belong to. -/
  deployment : Option String := none
  /-- The member lease that the process holds. -/
  held : Option String := none
  coordinator : Coordinator := {}
  /-- The guards of the controllers. -/
  guards : PerRole CycleGuard := ⟨{}, {}⟩

/-- Sets the value for a role. -/
def PerRole.set {α : Type} (values : PerRole α) (role : Role) (value : α) : PerRole α :=
  match role with
  | .leader => { values with leader := value }
  | .member => { values with member := value }

/-- Participants over one store. -/
structure Scene where
  store : MemoryStore := {}
  clock : Clock
  /-- Whether the clock goes on as time passes. -/
  ticking : Bool := false
  /-- Milliseconds that have passed. -/
  elapsed : Nat := 0
  faults : List Fault := []
  replicas : List Replica := []
  /-- The events so far, the last one first. -/
  events : List MemberEvent := []

namespace Scene

/-- What the clock shows, unless it has left the calendar. -/
def now? (s : Scene) : Option Instant :=
  if s.ticking then (s.clock.advance? (.ofMillis s.elapsed)).map (·.now) else some s.clock.now

/-- Changes what a process remembers. -/
def modifyReplica (s : Scene) (i : Nat) (f : Replica → Replica) : Scene :=
  { s with replicas := s.replicas.modify i f }

/-- Notes an event: what the process holds, what its coordinator makes of it, and the event
itself. -/
def announce (s : Scene) (i : Nat) (kind : EventKind) (lease : String) : Scene :=
  match s.replicas[i]? with
  | none => s
  | some r =>
    let held := if kind = .acquired then some lease else none
    let event : MemberEvent :=
      { kind, pool := r.participant.pool.name, pod := r.participant.pod, lease }
    let s := s.modifyReplica i fun r =>
      { r with held, coordinator := r.coordinator.deliver kind lease }
    { s with events := event :: s.events }

/-- Ends the cycle of a role. -/
def leave (s : Scene) (i : Nat) (role : Role) : Scene :=
  s.modifyReplica i fun r => { r with guards := r.guards.set role (r.guards.get role).leave }

/-- Answers a query of a process. There is no answer if the clock has left the calendar. -/
def ask (s : Scene) (i : Nat) : (q : Query) → Option (q.Answer × Scene)
  | .now => s.now?.map fun t => (t, s)
  | .knownDeployment => some (s.replicas[i]?.bind (·.deployment), s)
  | .setKnownDeployment name => some ((), s.modifyReplica i fun r => { r with deployment := name })
  | .heldLease => some (s.replicas[i]?.bind (·.held), s)
  | .announce kind lease => some ((), s.announce i kind lease)
  | .enter role =>
    let entered := !(s.replicas[i]?.any fun r => (r.guards.get role).tryEnter.1 = false)
    some (entered, s.modifyReplica i fun r =>
      { r with guards := r.guards.set role (r.guards.get role).tryEnter.2 })
  | .leave role => some ((), s.leave i role)

end Scene

/-! ## Operations under way -/

/-- How far a call has come through the faults: what is still to be done before the store sees
it, or its reply and what is still to be done after. -/
inductive CallStage (call : StoreCall) where
  | early (acts late : List Act)
  | late (reply : call.Reply) (acts : List Act)

/-- An operation that a delay holds up inside a call. -/
structure Suspended (α : Type) where
  call : StoreCall
  stage : CallStage call
  next : call.Reply → Operation α

/-- An operation under way in a process. -/
structure Running (α : Type) where
  replica : Nat
  /-- The role whose cycle the operation is in. -/
  inside : Option Role := none
  rest : Operation α ⊕ Suspended α

/-- How an operation has gone on. -/
inductive Progress (α : Type) where
  | ended (result : α)
  /-- The operation cannot go on. -/
  | crashed
  /-- The operation goes on after so many milliseconds. -/
  | waiting (millis : Nat) (rest : Running α)

/-- How a call has gone on. -/
inductive CallProgress (call : StoreCall) where
  | replied (reply : call.Reply)
  | crashed
  | waiting (millis : Nat) (stage : CallStage call)

/-- An operation of a process from its beginning. -/
def Running.start {α : Type} (replica : Nat) (operation : Operation α) : Running α :=
  { replica, rest := .inl operation }

/-- The role whose cycle a process is in after a query. -/
def Query.inside (before : Option Role) : (q : Query) → q.Answer → Option Role
  | .enter role, true => some role
  | .leave _, _ => none
  | _, _ => before

namespace Scene

/-- The scene after an act that takes no time and is no reply; there is none if the clock would
leave the calendar. -/
def act? (s : Scene) : Act → Option Scene
  | .remove ns name => some { s with store := s.store.remove ns name }
  | .put lease => some { s with store := s.store.put lease }
  | .switch offline => some { s with store := { s.store with offline } }
  | .advance span => (s.clock.advance? span).map fun clock => { s with clock }
  | .fail _ | .delay _ => some s

/-- Does what is to be done after the store has seen the call. -/
def goLate {call : StoreCall} (reply : call.Reply) : List Act → Scene → Scene × CallProgress call
  | [], s => (s, .replied reply)
  | .fail instead :: _, s => (s, .replied (.error (instead.error call)))
  | .delay millis :: acts, s =>
    if millis = 0 then goLate reply acts s else (s, .waiting millis (.late reply acts))
  | a :: acts, s =>
    match s.act? a with
    | some s => goLate reply acts s
    | none => (s, .crashed)

/-- Does what is to be done before the store sees the call, the call itself, and the rest. -/
def goEarly {call : StoreCall} (late : List Act) : List Act → Scene → Scene × CallProgress call
  | [], s =>
    let (store, reply) := s.store.answer call
    goLate reply late { s with store }
  | .fail instead :: _, s => (s, .replied (.error (instead.error call)))
  | .delay millis :: acts, s =>
    if millis = 0 then goEarly late acts s else (s, .waiting millis (.early acts late))
  | a :: acts, s =>
    match s.act? a with
    | some s => goEarly late acts s
    | none => (s, .crashed)

/-- Puts a call through the faults. -/
def call (s : Scene) (c : StoreCall) : Scene × CallProgress c :=
  let (early, late) := Fault.due s.faults c
  goEarly late early { s with faults := s.faults.map (·.counted c) }

/-- The scene after an operation cannot go on, or is given up: the cycle that it was in has
ended. -/
def abandon (s : Scene) (i : Nat) : (inside : Option Role) → Scene
  | none => s
  | some role => s.leave i role

/-- Runs an operation up to its end or to the next delay. -/
def run {α : Type} (i : Nat) : (inside : Option Role) → Operation α → Scene → Scene × Progress α
  | _, .done result, s => (s, .ended result)
  | inside, .crash, s => (s.abandon i inside, .crashed)
  | inside, .ask q next, s =>
    match s.ask i q with
    | some (answer, s) => run i (q.inside inside answer) (next answer) s
    | none => (s.abandon i inside, .crashed)
  | inside, .call c next, s =>
    match s.call c with
    | (s, .replied reply) => run i inside (next reply) s
    | (s, .crashed) => (s.abandon i inside, .crashed)
    | (s, .waiting millis stage) =>
      (s, .waiting millis { replica := i, inside, rest := .inr { call := c, stage, next } })

/-- Goes on with an operation under way, whose delay, if there was one, is over. -/
def resume {α : Type} (s : Scene) (r : Running α) : Scene × Progress α :=
  match r.rest with
  | .inl operation => run r.replica r.inside operation s
  | .inr suspended =>
    let (s, progress) := match suspended.stage with
      | .early acts late => goEarly late acts s
      | .late reply acts => goLate reply acts s
    match progress with
    | .replied reply => run r.replica r.inside (suspended.next reply) s
    | .crashed => (s.abandon r.replica r.inside, .crashed)
    | .waiting millis stage =>
      (s, .waiting millis { r with rest := .inr { suspended with stage } })

end Scene

end LeasePool
