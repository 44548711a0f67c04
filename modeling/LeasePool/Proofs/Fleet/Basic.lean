import LeasePool.Proofs.Store.Versions
import LeasePool.World.Step
import Mathlib.Logic.Relation

/-!
# Fleets

Replicas over one store, with any number of operations under way in each of them. An operation
goes on by one request at a time, a call to the store or a question to its own process, and
between two requests anybody else may do anything: go on with another operation, begin one, give
one up, restart, switch the store off or on, move the clock, or change the workloads. Which of
these happen, and in which order, is a list of moves; all statements about interleavings are
about all such lists.

An operation does in a fleet exactly what it does in a scene (`Scene.ask`, `MemoryStore.answer`);
what is added is a log of all calls, in which nobody looks but the statements.

## Main definitions

* `Job`, `Errand`: what a replica is told to do, and how far it has come.
* `Exchange`, `History`: a call with its reply; the scene and all calls so far.
* `Fleet`, `Move`, `Fleet.turn?`: the errands under way, and what can happen next.
* `Fleet.Reaches`, `Fleet.run?`: what can happen under a rule.
-/

namespace LeasePool

/-- What a replica is told to do. -/
inductive Job where
  /-- A cycle of the controller of a role. -/
  | cycle (role : Role)
  /-- The release of what a role holds. -/
  | release (role : Role)
  | ensureMember (name : String)
  | acquireLeader (holder name : String)
  | acquireMember (holder pool : String)
  | acquireMemberHinted (holder pool known : String)
  | renew (lease : Lease) (holder : String)
  | renewByName (name holder : String)
  | releaseLease (holder name : String)
  deriving DecidableEq

namespace Job

/-- The operation, with its result for an answer. -/
def answering {α : Type} (f : α → Answer) (x : Attempt α) : Operation Answer :=
  x.run.bind fun result => .done (Answer.ofExcept f result)

/-- What a participant does about a job. -/
def operation (p : Participant) : Job → Operation Answer
  | cycle role => World.silent (p.cycle role)
  | release role => World.silent (p.release role)
  | ensureMember name => answering (fun l => .lease (some l)) (p.pool.ensure .member name)
  | acquireLeader holder name => answering .flag (p.pool.acquireLeader holder name)
  | acquireMember holder pool => answering .lease (p.pool.acquireMember holder pool)
  | acquireMemberHinted holder pool known =>
    answering .lease (p.pool.acquireMemberHinted holder pool known)
  | renew lease holder => answering .lease (Pool.renew lease holder)
  | renewByName name holder => answering .lease (p.pool.renewByName name holder)
  | releaseLease holder name => answering .flag (p.pool.release holder name)

end Job

/-! ## Histories -/

/-- A call to the store, with its reply. -/
structure Exchange where
  /-- The number of the errand that called. -/
  errand : Nat
  pod : String
  /-- What the clock showed. -/
  time : Instant
  call : StoreCall
  reply : call.Reply
  /-- What was stored under the key of the lease that the call wants to write. -/
  before : Option Lease

namespace Exchange

/-- The lease that was stored. -/
def stored? (e : Exchange) : Option Lease := e.call.stored? e.reply

/-- Whether the store has answered, be it with a refusal. -/
def isAnswered (e : Exchange) : Bool :=
  match e.reply with
  | .error (.unavailable _) => false
  | _ => true

end Exchange

/-- A scene, and all calls so far. -/
structure History where
  scene : Scene
  /-- The leases that were stored at the beginning. -/
  origin : List Lease := []
  /-- The calls, the last one first. -/
  log : List Exchange := []

/-- Who takes part as a replica. -/
def Scene.participant? (s : Scene) (replica : Nat) : Option Participant :=
  s.replicas[replica]?.map (·.participant)

instance : Inhabited Participant :=
  ⟨{ pool := { ns := "", name := "", duration := ⟨0, 0⟩, topology := .fixed 0 }, pod := ""
     enabled := ⟨false, false⟩ }⟩

/-- The participant with a number. -/
def Scene.participantOf (s : Scene) (replica : Nat) : Participant :=
  (s.participant? replica).getD default

/-- The pod of a replica. -/
def Scene.podOf (s : Scene) (replica : Nat) : String := (s.participantOf replica).pod

namespace History

/-- What the clock shows. -/
def now (h : History) : Instant := h.scene.clock.now

/-- All leases that have ever been stored. -/
def leases (h : History) : List Lease := h.log.filterMap Exchange.stored? ++ h.origin

/-- Answers a query of a process. -/
def ask (h : History) (replica : Nat) (q : Query) : Option (q.Answer × History) :=
  (h.scene.ask replica q).map fun (answer, scene) => (answer, { h with scene })

/-- The reply to a call. -/
def reply (h : History) (c : StoreCall) : c.Reply := (h.scene.store.answer c).2

/-- The history after a call of a replica on an errand. -/
def call (h : History) (replica errand : Nat) (c : StoreCall) : History :=
  { h with
    scene := { h.scene with store := (h.scene.store.answer c).1 }
    log :=
      { errand, pod := h.scene.podOf replica, time := h.now, call := c, reply := h.reply c
        before := c.written?.bind fun l => h.scene.store.leases.get? l.key } :: h.log }

end History

/-! ## Fleets -/

/-- An operation under way in a replica. -/
structure Errand where
  replica : Nat
  job : Job
  /-- The role whose cycle the operation is in. -/
  inside : Option Role := none
  rest : Operation Answer

/-- Whether an operation has requests to make. -/
def Operation.isUnderWay {α : Type} : Operation α → Bool
  | done _ | crash => false
  | call .. | ask .. => true

/-- The operation when nobody goes on with it. -/
def Operation.dropped {α : Type} : Operation α → Operation α
  | done a => done a
  | _ => crash

/-- The errand when nobody goes on with it. It has left its cycle. -/
def Errand.dropped (e : Errand) : Errand :=
  { e with inside := none, rest := e.rest.dropped }

/-- A history and the errands so far, those that have ended included. -/
structure Fleet extends History where
  errands : List Errand := []

/-- Something that can happen. -/
inductive Move where
  /-- A replica begins a job. -/
  | begin (replica : Nat) (job : Job)
  /-- The errand with a number makes its next request. -/
  | go (errand : Nat)
  /-- The errand with a number is given up where it stands, and leaves its cycle. -/
  | giveUp (errand : Nat)
  /-- A replica forgets everything, its errands included. -/
  | restart (replica : Nat)
  /-- Time passes. -/
  | advance (span : Span)
  | switch (offline : Bool)
  /-- The workloads are replaced. -/
  | deploy (workloads : List Workload)
  deriving DecidableEq

/-- The errand with a number makes its next requests, so many of them. -/
def Move.goes (errand count : Nat) : List Move := List.replicate count (.go errand)

/-- The replica when it has been started anew. -/
def Replica.restarted (r : Replica) : Replica :=
  { participant := r.participant, check := r.check }

namespace Fleet

/-- Who takes part. -/
def participants (f : Fleet) : List Participant := f.scene.replicas.map (·.participant)

/-- The fleet with one errand changed. -/
def setErrand (f : Fleet) (h : History) (number : Nat) (e : Errand) : Fleet :=
  { h with errands := f.errands.set number e }

/-- The fleet after the next request of an errand. There is none if it has ended. -/
def go? (f : Fleet) (number : Nat) (e : Errand) : Option Fleet :=
  match e.rest with
  | .done _ | .crash => none
  | .ask q next =>
    match f.ask e.replica q with
    | some (answer, h) =>
      some (f.setErrand h number { e with inside := q.inside e.inside answer, rest := next answer })
    | none => some (f.setErrand f.toHistory number { e with rest := .crash })
  | .call c next =>
    some (f.setErrand (f.call e.replica number c) number { e with rest := next (f.reply c) })

/-- The fleet after a move, unless the move is not possible. -/
def turn? (f : Fleet) : Move → Option Fleet
  | .begin replica job =>
    (f.scene.replicas[replica]?).map fun r =>
      { f with errands := f.errands ++ [{ replica, job, rest := job.operation r.participant }] }
  | .go number => (f.errands[number]?).bind fun e => f.go? number e
  | .giveUp number =>
    (f.errands[number]?).map fun e =>
      f.setErrand { f.toHistory with scene := f.scene.abandon e.replica e.inside } number e.dropped
  | .restart replica =>
    some { f with
      scene := f.scene.modifyReplica replica Replica.restarted
      errands := f.errands.map fun e => if e.replica = replica then e.dropped else e }
  | .advance span =>
    (f.scene.clock.advance? span).map fun clock => { f with scene := { f.scene with clock } }
  | .switch offline =>
    some { f with scene := { f.scene with store := { f.scene.store with offline } } }
  | .deploy workloads =>
    some { f with scene := { f.scene with store := { f.scene.store with workloads } } }

/-- One possible move that the rule allows. -/
def Turn (rule : Fleet → Move → Prop) (f g : Fleet) : Prop :=
  ∃ m, rule f m ∧ f.turn? m = some g

/-- Any number of moves that the rule allows. -/
abbrev Reaches (rule : Fleet → Move → Prop) : Fleet → Fleet → Prop :=
  Relation.ReflTransGen (Turn rule)

/-- A rule that allows more gets one further. -/
theorem reaches_mono {rule wider : Fleet → Move → Prop} {f g : Fleet}
    (h : ∀ f m, rule f m → wider f m) (run : Reaches rule f g) : Reaches wider f g := by
  induction run with
  | refl => exact .refl
  | tail _ turn ih =>
    obtain ⟨m, hm, turn⟩ := turn
    exact ih.tail ⟨m, h _ _ hm, turn⟩

/-- The fleet after moves all of which are allowed and possible. -/
def run? (allowed : Fleet → Move → Bool) : List Move → Fleet → Option Fleet
  | [], f => some f
  | m :: moves, f => if allowed f m then (f.turn? m).bind (run? allowed moves) else none

/-- Moves that are allowed lead to where the rule lets one get. -/
theorem reaches_of_run? {rule : Fleet → Move → Prop} {allowed : Fleet → Move → Bool}
    (sound : ∀ f m, allowed f m = true → rule f m) {moves : List Move} {f g : Fleet}
    (h : f.run? allowed moves = some g) : Reaches rule f g := by
  induction moves generalizing f with
  | nil =>
    obtain rfl := Option.some.inj h
    exact .refl
  | cons m moves ih =>
    rw [run?] at h
    split at h
    · rename_i may
      obtain ⟨f', turn, rest⟩ := Option.bind_eq_some_iff.1 h
      exact .head ⟨m, sound f m may, turn⟩ (ih rest)
    · contradiction

/-- Whether moves that are allowed lead to a fleet with a property. -/
def leadsTo (allowed : Fleet → Move → Bool) (moves : List Move) (property : Fleet → Bool)
    (f : Fleet) : Bool := (f.run? allowed moves).any property

theorem exists_of_leadsTo {allowed : Fleet → Move → Bool} {moves : List Move}
    {property : Fleet → Bool} {f : Fleet} (h : f.leadsTo allowed moves property = true) :
    ∃ g, f.run? allowed moves = some g ∧ property g = true := by
  rwa [leadsTo, Option.any_eq_true] at h

/-- Participants over an empty store, at a time. -/
def ofParticipants (participants : List Participant) (time : Instant) : Fleet :=
  { scene :=
      { clock := ⟨.utc time⟩
        replicas := participants.map fun c =>
          { participant := c
            check := { pool := c.pool.name, identity := ⟨c.pool.ns, c.pod⟩ } } } }

@[simp] theorem participants_ofParticipants {cs : List Participant} {t : Instant} :
    (ofParticipants cs t).participants = cs := by
  rw [participants, ofParticipants, List.map_map]
  exact List.map_id' cs

end Fleet

end LeasePool
