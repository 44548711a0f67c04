import LeasePool.World.Report

/-!
# Steps

What can be done to a world from outside: changes of the store behind everybody's back, faults,
the passing of time, operations of replicas, and controllers that are started and stopped. Each
step has an answer; those that wait have it when the wait is over.
-/

namespace LeasePool

/-- Which lease a renewal is for. -/
inductive RenewalSource where
  /-- One that was set aside. -/
  | saved (name : String)
  /-- The stored one of a name. -/
  | stored (name : String)
  | given (lease : Lease)

/-- Something that is done to a world. -/
inductive Step where
  | seed (ns deployment : String) (replicas : Int32) (pod : String)
  | addPod (ns deployment pod : String)
  | setReplicas (ns deployment : String) (replicas : Int32)
  | putLease (lease : Lease)
  | removeLease (ns name : String)
  | putWorkload (workload : Workload)
  | removeWorkload (kind : WorkloadKind) (ns name : String)
  | switch (offline : Bool)
  | names (ns : String)
  | holders (ns : String)
  | save (ns name as : String)
  | call (call : StoreCall)
  | fault (fault : Fault)
  | clearFaults
  | advance (span : Span)
  | sleep (millis : Nat)
  | now
  /-- Sets up a replica, in place of an earlier one of the name. -/
  | replica (id pod ns : String) (settings : PoolSettings) (topology : Topology)
  /-- A cycle of each role. -/
  | tick (id : String)
  | cycle (id : String) (role : Role)
  | release (id : String) (role : Role)
  /-- A release of each role. -/
  | stop (id : String)
  | reconcile (id : String)
  | acquire (id : String)
  | ensureMember (id name : String)
  | renew (id ns holder : String) (source : RenewalSource)
  | renewByName (id name holder : String)
  | acquireLeader (id holder : String) (name : Option String)
  | acquireMember (id holder : String) (pool known : Option String)
  | releaseLease (id holder name : String)
  | desired (id : String)
  | owners (id : String)
  | view (id : String)
  | report (id : String)
  | deliver (id : String) (kind : EventKind) (lease : String)
  | await (id : String) (limit : Span)
  /-- Waits for a member lease in the background. -/
  | awaitAside (id : String) (limit : Span) (task : String)
  /-- Runs a cycle in the background. -/
  | cycleAside (id : String) (role : Role) (task : String)
  /-- Asks what a background task has come to. -/
  | collect (task : String)
  /-- Starts a controller, after a first cycle if it is primed. -/
  | spawn (id : String) (role : Role) (interval delay : Nat) (handle : String) (primed : Bool)
  | shutdown (handle : String) (grace : Nat)
  | dropHandle (handle : String)

namespace World

/-- The value under a name. -/
def named? {α : Type} (name : String) (entries : List (String × α)) : Option α :=
  (entries.find? fun e => e.1 = name).map (·.2)

/-- The entries without those under a name. -/
def without {α : Type} (name : String) (entries : List (String × α)) : List (String × α) :=
  entries.filter fun e => e.1 ≠ name

/-- Changes the store. -/
def withStore (w : World) (store : MemoryStore) : World :=
  { w with scene := { w.scene with store } }

/-- The replica of a name and its number. -/
def replica? (w : World) (id : String) : Option (Nat × Replica) := do
  let number ← named? id w.replicas
  let replica ← w.scene.replicas[number]?
  return (number, replica)

/-- Runs operations of processes one after the other. -/
def operate (w : World) (replica : Nat) (operation : Operation Answer)
    (queue : List (Nat × Operation Answer) := []) (ending : Ending := .answer) : World :=
  (w.await (.operating w.scene.elapsed (.start replica operation) queue w.scene.elapsed
    ending)).settle

/-- The world, and what the foreground has come to. -/
def answered (w : World) : World × Answer :=
  ({ w with outcome := none }, w.outcome.getD .nothing)

/-- Runs an operation of a replica that may end with an error. -/
def attempt {α : Type} (w : World) (id : String)
    (operation : Participant → Attempt α) (answer : α → Answer) : World × Answer :=
  match w.replica? id with
  | none => (w, .unknown)
  | some (i, r) =>
    let operation := (operation r.participant).run.bind fun result =>
      .done (Answer.ofExcept answer result)
    (w.operate i operation).answered

/-- The operation, with nothing to answer. -/
def silent (operation : Operation Unit) : Operation Answer :=
  operation.bind fun _ => .done .nothing

/-- A wait for the member lease of a replica. One that is bound already has nothing to wait
for. -/
def waitFor (w : World) (i : Nat) (r : Replica) (limit : Span) : Answer ⊕ Activity :=
  match r.coordinator.membership with
  | .bound lease => .inl (.awaited (.ok lease) 0)
  | .unbound =>
    .inr (.awaiting i r.coordinator.gateNumber .arriving limit
      (w.scene.elapsed + limit.ceilMillis) w.scene.elapsed)

/-- Begins a background task of a name. -/
def aside (w : World) (name : String) (activity : Activity) : World × Answer :=
  let background := without name w.background ++ [(name, w.fresh)]
  ({ w with background }.addTask activity |>.settle, .nothing)

/-- What can be seen of a replica. -/
def viewOf (r : Replica) : ReplicaView :=
  let p := r.participant
  { ns := p.pool.ns
    pool := p.pool.name
    leaderJob := p.jobName .leader
    memberJob := p.jobName .member
    leaderEnabled := p.enabled.leader
    memberEnabled := p.enabled.member
    leaderLease := p.leaderLease
    held := r.held
    membership := r.coordinator.membership
    readiness := r.check.evaluate r.coordinator }

/-- The reports about the parts of a replica. -/
def reportOf (w : World) (r : Replica) : ReportView :=
  let job (h : Handle) : String :=
    match w.scene.replicas[h.controller.replica]? with
    | some r => r.participant.jobName h.controller.role
    | none => ""
  { store := Report.store w.scene.store
    service := Report.pool r.participant.pool
    leader := Report.leader r.participant
    member := Report.member r.participant r.held
    coordinator := Report.coordinator r.coordinator
    handles := w.handles.map fun h => (h.1, Report.handle (job h.2)) }

/-- Sets up a replica, in place of an earlier one of the name, which keeps its number. -/
def setUp (w : World) (id pod ns : String) (settings : PoolSettings) (topology : Topology) :
    World :=
  let enabled : PerRole Bool := ⟨settings.lease.leader.enabled, settings.lease.member.enabled⟩
  let replica : Replica :=
    { participant := { pool := Pool.ofSettings ns settings topology, pod, enabled }
      check :=
        { leaseEnabled := enabled.member
          requireLease := settings.requireLease
          pool := settings.pool
          identity := { ns, pod } } }
  { w with
    scene := { w.scene with replicas := w.scene.replicas ++ [replica] }
    replicas := without id w.replicas ++ [(id, w.scene.replicas.length)] }

/-- Steps that concern the store and the surroundings. -/
def stepOutside (w : World) (s : Step) : World × Answer :=
  let store := w.scene.store
  match s with
  | .seed ns deployment replicas pod =>
    (w.withStore (store.seedDeployment ns deployment replicas pod), .nothing)
  | .addPod ns deployment pod => (w.withStore (store.addPod ns deployment pod), .nothing)
  | .setReplicas ns deployment replicas =>
    (w.withStore (store.setReplicas ns deployment replicas), .nothing)
  | .putLease lease => (w.withStore (store.put lease), .lease (some (store.stamped lease)))
  | .removeLease ns name => (w.withStore (store.remove ns name), .lease (store.lease? ns name))
  | .putWorkload workload => (w.withStore (store.putWorkload workload), .nothing)
  | .removeWorkload kind ns name => (w.withStore (store.removeWorkload kind ns name), .nothing)
  | .switch offline => (w.withStore { store with offline }, .nothing)
  | .names ns => (w, .names ((store.leasesOf ns).map (·.name)))
  | .holders ns => (w, .holders ((store.leasesOf ns).map fun l => (l.name, l.holder?)))
  | .save ns name as =>
    match store.lease? ns name with
    | some lease => ({ w with saved := without as w.saved ++ [(as, lease)] }, .flag true)
    | none => (w, .flag false)
  | .call c =>
    let operation : Operation Answer := .call c fun reply => .done (Answer.ofReply c reply)
    (w.operate 0 operation).answered
  | .fault fault =>
    ({ w with scene := { w.scene with faults := w.scene.faults ++ [fault] } }, .nothing)
  | .clearFaults => ({ w with scene := { w.scene with faults := [] } }, .nothing)
  | .advance span =>
    match w.scene.clock.advance? span with
    | some clock => ({ w with scene := { w.scene with clock } }, .nothing)
    | none => (w, .crash)
  | .sleep millis => (w.await (.sleeping (w.scene.elapsed + millis))).settle.answered
  | .now =>
    match w.scene.now? with
    | some t => (w, .instant t)
    | none => (w, .crash)
  | .replica id pod ns settings topology => (w.setUp id pod ns settings topology, .nothing)
  | _ => (w, .unknown)

/-- Steps that run operations of replicas. -/
def stepOperation (w : World) : Step → World × Answer
  | .tick id =>
    match w.replica? id with
    | some (i, r) =>
      (w.operate i (silent (r.participant.cycle .leader))
        [(i, silent (r.participant.cycle .member))]).answered
    | none => (w, .unknown)
  | .cycle id role =>
    match w.replica? id with
    | some (i, r) => (w.operate i (silent (r.participant.cycle role))).answered
    | none => (w, .unknown)
  | .release id role =>
    match w.replica? id with
    | some (i, r) => (w.operate i (silent (r.participant.release role))).answered
    | none => (w, .unknown)
  | .stop id =>
    match w.replica? id with
    | some (i, r) =>
      (w.operate i (silent (r.participant.release .member))
        [(i, silent (r.participant.release .leader))]).answered
    | none => (w, .unknown)
  | .reconcile id => w.attempt id (·.reconcile) .flag
  | .acquire id => w.attempt id (·.acquire) .flag
  | .ensureMember id name =>
    w.attempt id (fun p => p.pool.ensure .member name) fun l => .lease (some l)
  | .renew id ns holder source =>
    let lease := match source with
      | .saved name => named? name w.saved
      | .stored name => w.scene.store.lease? ns name
      | .given lease => some lease
    match lease with
    | some lease => w.attempt id (fun _ => Pool.renew lease holder) .lease
    | none => (w, .unknown)
  | .renewByName id name holder =>
    w.attempt id (fun p => p.pool.renewByName name holder) .lease
  | .acquireLeader id holder name =>
    w.attempt id (fun p => p.pool.acquireLeader holder (name.getD p.leaderLease)) .flag
  | .acquireMember id holder pool known =>
    let operation (p : Participant) : Attempt (Option Lease) :=
      let pool := pool.getD p.pool.name
      match known with
      | some known => p.pool.acquireMemberHinted holder pool known
      | none => p.pool.acquireMember holder pool
    w.attempt id operation .lease
  | .releaseLease id holder name =>
    w.attempt id (fun p => p.pool.release holder name) .flag
  | .desired id => w.attempt id (fun p => p.pool.topology.desiredReplicas?) .replicas
  | .owners id => w.attempt id (fun p => p.pool.topology.owners) .owners
  | _ => (w, .unknown)

/-- Steps that concern memberships, background tasks and controllers. -/
def stepMembership (w : World) : Step → World × Answer
  | .view id =>
    match w.replica? id with
    | some (_, r) => (w, .view (viewOf r))
    | none => (w, .unknown)
  | .report id =>
    match w.replica? id with
    | some (_, r) => (w, .report (w.reportOf r))
    | none => (w, .unknown)
  | .deliver id kind lease =>
    match w.replica? id with
    | some (i, _) =>
      let scene := w.scene.modifyReplica i fun r =>
        { r with coordinator := r.coordinator.deliver kind lease }
      ({ w with scene }.rouse.settle, .nothing)
    | none => (w, .unknown)
  | .await id limit =>
    match w.replica? id with
    | some (i, r) =>
      match w.waitFor i r limit with
      | .inl answer => (w, answer)
      | .inr activity => (w.await activity).settle.answered
    | none => (w, .unknown)
  | .awaitAside id limit task =>
    match w.replica? id with
    | some (i, r) =>
      match w.waitFor i r limit with
      | .inl answer =>
        let background := without task w.background ++ [(task, w.fresh)]
        let finished := w.finished ++ [(w.fresh, answer)]
        ({ w with background, finished, fresh := w.fresh + 1 }, .nothing)
      | .inr activity => w.aside task activity
    | none => (w, .unknown)
  | .cycleAside id role task =>
    match w.replica? id with
    | some (i, r) =>
      let run := Running.start i (silent (r.participant.cycle role))
      w.aside task (.operating w.scene.elapsed run [] w.scene.elapsed .duration)
    | none => (w, .unknown)
  | .collect task =>
    match named? task w.background with
    | none => (w, .unknown)
    | some number =>
      match w.finished.find? fun f => f.1 = number with
      | none => (w, .pending)
      | some (_, answer) => ({ w with background := without task w.background }, answer)
  | .spawn id role interval delay handle primed =>
    match w.replica? id with
    | some (i, r) =>
      let l : Launch := { controller := { replica := i, role, interval }, delay, handle }
      if primed then
        (w.operate i (silent (r.participant.cycle role)) [] (.launch l)).answered
      else ((w.launch l).settle, .nothing)
    | none => (w, .unknown)
  | .shutdown handle grace =>
    match named? handle w.handles with
    | some h =>
      let w := { w with handles := without handle w.handles }
      let w := w.modifyTask h.task fun t =>
        match t.activity with
        | .controlling c _ phase => { t with activity := .controlling c true phase }
        | _ => t
      (w.await (.joining h.task h.controller grace (w.scene.elapsed + grace)
        w.scene.elapsed)).settle.answered
    | none => (w, .unknown)
  | .dropHandle handle =>
    ({ w with handles := without handle w.handles },
      .flag (named? handle w.handles).isSome)
  | _ => (w, .unknown)

/-- The world after a step and after all that is due then, and the answer. -/
def step (w : World) (s : Step) : World × Answer :=
  match s with
  | .seed .. | .addPod .. | .setReplicas .. | .putLease _ | .removeLease .. | .putWorkload _
  | .removeWorkload .. | .switch _ | .names _ | .holders _ | .save .. | .call _ | .fault _
  | .clearFaults | .advance _ | .sleep _ | .now | .replica .. => w.stepOutside s
  | .tick _ | .cycle .. | .release .. | .stop _ | .reconcile _ | .acquire _ | .ensureMember ..
  | .renew .. | .renewByName .. | .acquireLeader .. | .acquireMember .. | .releaseLease ..
  | .desired _ | .owners _ => w.stepOperation s
  | .view _ | .report _ | .deliver .. | .await .. | .awaitAside .. | .cycleAside .. | .collect _
  | .spawn .. | .shutdown .. | .dropHandle _ => w.stepMembership s

end World

/-! ## Accounts of steps -/

/-- What a step has brought about. -/
structure Account where
  answer : Answer
  /-- The successful creations and updates so far. -/
  writes : Nat
  /-- The events during the step. -/
  events : List MemberEvent
  /-- The stored leases that are new or different; none for one that is gone. -/
  changed : List (LeaseKey × Option Lease)

namespace World

/-- The leases that are new, different or gone. -/
def changes (before after : Table LeaseKey Lease) : List (LeaseKey × Option Lease) :=
  let there := after.entries.filter fun e => before.get? e.1 ≠ some e.2
  let gone := before.entries.filter fun e => !after.contains e.1
  there.map (fun e => (e.1, some e.2)) ++ gone.map fun e => (e.1, none)

/-- The world after a step, and what the step has brought about. -/
def account (w : World) (s : Step) : World × Account :=
  let before := w.scene.store.leases
  let (w, answer) := { w with scene := { w.scene with events := [] } }.step s
  (w, { answer
        writes := w.scene.store.writes
        events := w.scene.events.reverse
        changed := changes before w.scene.store.leases })

/-- What the steps have brought about, one after the other. -/
def accounts (w : World) : List Step → List Account
  | [] => []
  | s :: steps =>
    let (w, account) := w.account s
    account :: w.accounts steps

end World

end LeasePool
