import LeasePool.Process.Health
import LeasePool.Proofs.Fleet.Closed
import LeasePool.Proofs.Fleet.Memory
import LeasePool.Proofs.Membership.Announcements

/-!
# The lifeline of a member controller

Requests are made on a member controller one after the other: to acquire a lease, to run a cycle,
to give the lease up. Each of them may be cancelled while it waits for the store, the store may
reply whatever it likes, and everybody else may do anything that is not up to the controller.
Still the events that the controller announces come in turn, a lease is acquired before it is
lost or given up, and the controller, its coordinator and the report about its readiness never
differ about the lease.

No request has anything to announce but what fits what is held at that point, and so a run is a
matter of one move at a time.
-/

namespace LeasePool

/-! ## Events in turn -/

/-- What a process holds after an event. -/
def EventKind.leaves (kind : EventKind) (lease : String) : Option String :=
  if kind = .acquired then some lease else none

/-- The events of a process, the last one first, and what it holds after them: a lease is acquired
when none is held, and lost or given up when it is the one held. -/
inductive IsLifeline : List MemberEvent → Option String → Prop
  | start : IsLifeline [] none
  | acquired {events : List MemberEvent} {e : MemberEvent} (before : IsLifeline events none)
    (kind : e.kind = .acquired) : IsLifeline (e :: events) (some e.lease)
  | ended {events : List MemberEvent} {e : MemberEvent}
    (before : IsLifeline events (some e.lease)) (kind : e.kind ≠ .acquired) :
    IsLifeline (e :: events) none

/-! ## Standings -/

/-- What is known of the membership of a replica: by its controller, by its coordinator, and by
whoever has heard the events of its pod. -/
structure Standing where
  participant : Participant
  held : Option String
  coordinator : Coordinator
  /-- The last one first. -/
  events : List MemberEvent
  deriving DecidableEq

/-- What is known of the membership of a replica. -/
def Scene.standing? (s : Scene) (i : Nat) : Option Standing :=
  s.replicas[i]?.map fun r =>
    { participant := r.participant, held := r.held, coordinator := r.coordinator
      events := s.events.filter fun e => e.pod = r.participant.pod }

namespace Standing

/-- The standing after an event. -/
def announced (st : Standing) (kind : EventKind) (lease : String) : Standing :=
  { st with
    held := kind.leaves lease
    coordinator := st.coordinator.deliver kind lease
    events :=
      { kind, pool := st.participant.pool.name, pod := st.participant.pod, lease } :: st.events }

/-- The events are in turn, and the coordinator is bound to what the controller holds. -/
structure Agrees (st : Standing) : Prop where
  lifeline : IsLifeline st.events st.held
  bound : st.coordinator.currentLease? = st.held

/-- **What fits keeps up the agreement.** -/
theorem Agrees.announced {st : Standing} {kind ending : EventKind} {lease : String}
    (A : st.Agrees) (fits : kind.Fits ending st.held lease) : (st.announced kind lease).Agrees := by
  refine ⟨?_, Coordinator.currentLease?_deliver⟩
  have before := A.lifeline
  unfold EventKind.Fits at fits
  by_cases acquired : kind = .acquired
  · rw [if_pos acquired] at fits
    rw [fits] at before
    rw [Standing.announced, EventKind.leaves, if_pos acquired]
    exact .acquired before acquired
  · rw [if_neg acquired] at fits
    rw [fits.2] at before
    rw [Standing.announced, EventKind.leaves, if_neg acquired]
    exact .ended before acquired

end Standing

namespace Scene

variable {s t : Scene} {i : Nat} {st : Standing}

/-- A change of what else a process remembers. -/
theorem standing?_modifyReplica {g : Replica → Replica} (hg : ∀ r,
    (g r).participant = r.participant ∧ (g r).held = r.held ∧ (g r).coordinator = r.coordinator) :
    (s.modifyReplica i g).standing? i = s.standing? i := by
  simp only [standing?, replicas_modifyReplica, if_true]
  cases hr : s.replicas[i]? with
  | none => rfl
  | some r => simp [modifyReplica, hg]

/-- A request that is given up is of no consequence for what is known. -/
theorem standing?_abandon {inside : Option Role} :
    (s.abandon i inside).standing? i = s.standing? i := by
  cases inside with
  | none => rfl
  | some role => exact standing?_modifyReplica fun _ => ⟨rfl, rfl, rfl⟩

theorem standing?_announce {kind : EventKind} {lease : String} (h : s.standing? i = some st) :
    (s.announce i kind lease).standing? i = some (st.announced kind lease) := by
  obtain ⟨r, hr, rfl⟩ := Option.map_eq_some_iff.1 h
  have events : (s.announce i kind lease).events =
      { kind, pool := r.participant.pool.name, pod := r.participant.pod, lease } :: s.events := by
    simp only [announce, hr]
    rfl
  simp only [standing?, replicas_announce, replicas_modifyReplica, if_true, hr, events,
    Option.map_some, told, List.filter_cons, decide_true]
  rfl

/-- **What a query does to what is known**: nothing, unless it announces an event that fits. After
it the operation has nothing to tell but what fits. -/
theorem tells_of_ask {q : Query} {a : q.Answer} {next : q.Answer → Operation Answer}
    {ending : EventKind} (h : s.standing? i = some st)
    (tells : (Operation.ask q next).Tells ending st.held) (answer : s.ask i q = some (a, t)) :
    ∃ st', t.standing? i = some st' ∧ (next a).Tells ending st'.held ∧
      (st' = st ∨ ∃ kind lease, q = .announce kind lease ∧ kind.Fits ending st.held lease ∧
        (next a).IsSilent ∧ st' = st.announced kind lease) := by
  cases q with
  | now =>
    obtain ⟨now, -, same⟩ := Option.map_eq_some_iff.1 answer
    cases same
    exact ⟨st, h, tells a, .inl rfl⟩
  | heldLease =>
    cases answer
    have held : s.replicas[i]?.bind (·.held) = st.held := by
      obtain ⟨r, hr, rfl⟩ := Option.map_eq_some_iff.1 h
      rw [hr]
      rfl
    rw [held]
    exact ⟨st, h, tells, .inl rfl⟩
  | announce kind lease =>
    cases answer
    exact ⟨_, standing?_announce h, tells.2.tells, .inr ⟨_, _, rfl, tells.1, tells.2, rfl⟩⟩
  | knownDeployment =>
    cases answer
    exact ⟨st, h, tells _, .inl rfl⟩
  | setKnownDeployment name =>
    cases answer
    refine ⟨st, Eq.trans ?_ h, tells _, .inl rfl⟩
    exact standing?_modifyReplica fun _ => ⟨rfl, rfl, rfl⟩
  | enter role =>
    cases answer
    refine ⟨st, Eq.trans ?_ h, tells _, .inl rfl⟩
    exact standing?_modifyReplica fun _ => ⟨rfl, rfl, rfl⟩
  | leave role =>
    cases answer
    refine ⟨st, Eq.trans ?_ h, tells _, .inl rfl⟩
    exact standing?_modifyReplica fun _ => ⟨rfl, rfl, rfl⟩

end Scene

/-! ## Readiness -/

/-- What the report about the readiness of a process says about the lease. -/
theorem ReadinessCheck.fields?_encode_evaluate {check : ReadinessCheck} (c : Coordinator)
    (enabled : check.leaseEnabled = true) :
    (check.evaluate c).encode.fields? ["leaseAcquired", "leaseName"] =
      some [some (.bool c.currentLease?.isSome), c.currentLease?.map .string] := by
  simp only [evaluate, enabled]
  -- The members are sorted first, and then looked up.
  cases c.currentLease? <;>
    simp only [ReadinessReport.encode, Json.ofMembers, Json.member, Json.sortMembers,
      Json.insertMember, Bool.not_true, Bool.false_eq_true, if_false, if_true, List.cons_append,
      List.nil_append, List.append_nil, List.foldl_cons, List.foldl_nil, String.reduceLT,
      String.reduceEq, Option.isSome_none, Option.isSome_some] <;>
    rfl

/-- When a process is ready. -/
theorem healthAnswer_ready_iff {check : ReadinessCheck} (c : Coordinator) :
    (healthAnswer check c "/health/ready").status = 200 ↔
      check.leaseEnabled = false ∨ check.requireLease = false ∨
        c.currentLease?.isSome = true := by
  simp only [healthAnswer, true_or, if_true, readinessAnswer, HealthAnswer.ofJson,
    ReadinessCheck.evaluate]
  cases check.leaseEnabled <;> cases check.requireLease <;> cases c.currentLease? <;> simp

/-! ## Sessions -/

/-- What a member controller can be asked to do. -/
inductive MemberRequest where
  | acquire
  | cycle
  | release
  deriving DecidableEq, Repr

/-- What a participant does about a request. -/
def MemberRequest.operation (p : Participant) : MemberRequest → Operation Answer
  | acquire => Job.answering .flag p.acquire
  | cycle => World.silent (p.cycle .member)
  | release => World.silent (p.release .member)

/-- Whatever is requested, nothing is announced but what fits. -/
theorem MemberRequest.tells {p : Participant} {held : Option String} (request : MemberRequest) :
    ∃ ending, (request.operation p).Tells ending held := by
  cases request with
  | acquire => exact ⟨.lost, Participant.tells_acquire.bind fun _ => trivial⟩
  | cycle => exact ⟨.lost, Participant.tells_cycle.bind fun _ => trivial⟩
  | release => exact ⟨.released, Participant.tells_releaseMember.bind fun _ => trivial⟩

/-- A scene, and the request that is under way on the member controller of one of its replicas,
with the role whose cycle it is in. -/
structure Session where
  scene : Scene
  current : Option (Option Role × Operation Answer) := none

namespace Session

/-- Something that can happen. -/
inductive Move where
  /-- A request is made. -/
  | request (request : MemberRequest)
  /-- The request under way goes on, and the store replies as it likes. -/
  | go (store : (c : StoreCall) → c.Reply)
  /-- The request under way is given up. -/
  | cancel
  /-- Everybody else does something, and another scene is the outcome. -/
  | others (scene : Scene)

/-- The session after a move, unless the move is not possible. One request is under way at a time,
it is cancelled at its calls to the store only, and others have no part in what is known of the
membership. -/
def turn? (i : Nat) (x : Session) : Move → Option Session
  | .request request => match x.current with
    | none => (x.scene.participant? i).map fun p =>
      { x with current := some (none, request.operation p) }
    | some _ => none
  | .go store => match x.current with
    | none => none
    | some (_, .done _) => some { x with current := none }
    | some (inside, .crash) => some { scene := x.scene.abandon i inside }
    | some (inside, .ask q next) => match x.scene.ask i q with
      | some (a, scene) => some { scene, current := some (q.inside inside a, next a) }
      | none => some { scene := x.scene.abandon i inside }
    | some (inside, .call c next) => some { x with current := some (inside, next (store c)) }
  | .cancel => match x.current with
    | some (inside, .call _ _) => some { scene := x.scene.abandon i inside }
    | _ => none
  | .others scene =>
    if scene.standing? i = x.scene.standing? i then some { x with scene } else none

/-- Any number of moves. -/
abbrev Reaches (i : Nat) : Session → Session → Prop :=
  Relation.ReflTransGen fun x y => ∃ m, x.turn? i m = some y

/-- The session after some moves, unless one of them is not possible. -/
def run? (i : Nat) : List Move → Session → Option Session
  | [], x => some x
  | m :: moves, x => (x.turn? i m).bind (run? i moves)

theorem reaches_of_run? {i : Nat} {moves : List Move} {x y : Session}
    (h : x.run? i moves = some y) : Reaches i x y := by
  induction moves generalizing x with
  | nil =>
    obtain rfl := Option.some.inj h
    exact .refl
  | cons m moves ih =>
    obtain ⟨x', turn, rest⟩ := Option.bind_eq_some_iff.1 h
    exact .head ⟨m, turn⟩ (ih rest)

/-- A replica of which nothing is known yet, and on whose member controller no request has been
made. -/
structure IsNew (i : Nat) (x : Session) : Prop where
  idle : x.current = none
  unbound : ∃ st, x.scene.standing? i = some st ∧ st.held = none ∧
    st.coordinator.currentLease? = none ∧ st.events = []

/-- What is known agrees, and what the request under way is going to announce fits. -/
def IsFaithful (i : Nat) (x : Session) : Prop :=
  ∃ st, x.scene.standing? i = some st ∧ st.Agrees ∧
    ∀ inside rest, x.current = some (inside, rest) → ∃ ending, rest.Tells ending st.held

variable {i : Nat} {x y : Session}

theorem IsNew.isFaithful (h : x.IsNew i) : x.IsFaithful i := by
  obtain ⟨st, standing, held, bound, events⟩ := h.unbound
  refine ⟨st, standing, ⟨?_, bound.trans held.symm⟩, fun inside rest current => ?_⟩
  · rw [events, held]
    exact .start
  · rw [h.idle] at current
    contradiction

/-- A session that is faithful goes on so without a request, if what is known is the same. -/
theorem IsFaithful.idle {scene : Scene} (F : x.IsFaithful i)
    (same : scene.standing? i = x.scene.standing? i) :
    IsFaithful i { scene } := by
  obtain ⟨st, standing, agrees, -⟩ := F
  exact ⟨st, same.trans standing, agrees, by simp⟩

/-- **A move keeps a session faithful.** -/
theorem IsFaithful.turn (F : x.IsFaithful i) {m : Move} (h : x.turn? i m = some y) :
    y.IsFaithful i := by
  have ⟨st, standing, agrees, tells⟩ := F
  cases m with
  | request request =>
    simp only [turn?] at h
    split at h
    · obtain ⟨p, -, rfl⟩ := Option.map_eq_some_iff.1 h
      refine ⟨st, standing, agrees, fun inside rest current => ?_⟩
      cases current
      exact request.tells
    · contradiction
  | go store =>
    simp only [turn?] at h
    split at h
    · contradiction
    · obtain rfl := Option.some.inj h
      exact F.idle rfl
    · obtain rfl := Option.some.inj h
      exact F.idle Scene.standing?_abandon
    · rename_i inside q next current
      split at h
      · rename_i a scene answer
        obtain rfl := Option.some.inj h
        obtain ⟨ending, goesOn⟩ := tells _ _ current
        obtain ⟨st', standing', goesOn, change⟩ := Scene.tells_of_ask standing goesOn answer
        refine ⟨st', standing', ?_, fun inside' rest current' => ?_⟩
        · rcases change with rfl | ⟨kind, lease, -, fits, -, rfl⟩
          · exact agrees
          · exact agrees.announced fits
        · cases current'
          exact ⟨ending, goesOn⟩
      · obtain rfl := Option.some.inj h
        exact F.idle Scene.standing?_abandon
    · rename_i inside c next current
      obtain rfl := Option.some.inj h
      refine ⟨st, standing, agrees, fun inside' rest current' => ?_⟩
      cases current'
      obtain ⟨ending, goesOn⟩ := tells _ _ current
      exact ⟨ending, goesOn (store c)⟩
  | cancel =>
    simp only [turn?] at h
    split at h
    · obtain rfl := Option.some.inj h
      exact F.idle Scene.standing?_abandon
    · contradiction
  | others scene =>
    simp only [turn?] at h
    split at h
    · rename_i same
      obtain rfl := Option.some.inj h
      exact ⟨st, same.trans standing, agrees, tells⟩
    · contradiction

/-- And so do any moves. -/
theorem isFaithful_of_reaches (new : x.IsNew i) (run : Reaches i x y) : y.IsFaithful i := by
  induction run with
  | refl => exact new.isFaithful
  | tail _ turn ih =>
    obtain ⟨m, turn⟩ := turn
    exact ih.turn turn

/-- **Events, controller, coordinator and readiness never disagree.** Whatever is requested of a
member controller, whatever the store replies, and whichever requests are cancelled:
* the events come in turn, and the last of them says what the controller holds;
* the coordinator is bound to the same lease;
* so the report about the readiness names that lease, and a process that may not go without one is
  ready exactly if there is one. -/
theorem agreement_of_reaches (new : x.IsNew i) (run : Reaches i x y) :
    ∃ st, y.scene.standing? i = some st ∧ IsLifeline st.events st.held ∧
      st.coordinator.currentLease? = st.held ∧ ∀ check : ReadinessCheck,
        (check.leaseEnabled = true →
          (check.evaluate st.coordinator).encode.fields? ["leaseAcquired", "leaseName"] =
            some [some (.bool st.held.isSome), st.held.map .string]) ∧
        ((healthAnswer check st.coordinator "/health/ready").status = 200 ↔
          check.leaseEnabled = false ∨ check.requireLease = false ∨ st.held.isSome = true) := by
  obtain ⟨st, standing, agrees, -⟩ := isFaithful_of_reaches new run
  refine ⟨st, standing, agrees.lifeline, agrees.bound, fun check => ⟨fun enabled => ?_, ?_⟩⟩
  · rw [← agrees.bound]
    exact ReadinessCheck.fields?_encode_evaluate _ enabled
  · rw [← agrees.bound]
    exact healthAnswer_ready_iff _

/-- A store in which one member lease is free. -/
def offering : MemoryStore :=
  ({} : MemoryStore).put (Pool.small.newLease .member Pool.smallKey.name [])

/-- The request under way goes on, so many times, over a store. -/
def Move.goes (store : MemoryStore) (count : Nat) : List Move :=
  List.replicate count (.go fun c => (store.answer c).2)

/-- A lease is acquired, a cycle is cancelled while it reads the lease, and the next one finds
that the lease is gone. -/
def shortLived : List Move :=
  [.request .acquire] ++ Move.goes offering 7 ++ [.request .cycle] ++ Move.goes offering 2 ++
    [.cancel, .request .cycle] ++ Move.goes {} 6

/-- The lease is lost then, and without one the process is not ready. -/
theorem agreement_of_shortLived :
    ∃ y st, Reaches 0 { scene := (Fleet.small ⟨0⟩).scene } y ∧ y.scene.standing? 0 = some st ∧
      st.events.map (·.kind) = [.lost, .acquired] ∧ IsLifeline st.events st.held ∧
      st.coordinator.currentLease? = none ∧
      ((healthAnswer { pool := "pool", identity := ⟨"ns", "a"⟩ } st.coordinator
        "/health/ready").status ≠ 200) := by
  have found : ((run? 0 shortLived { scene := (Fleet.small ⟨0⟩).scene }).any fun y =>
      (y.scene.standing? 0).any fun st =>
        st.events.map (·.kind) = [.lost, .acquired] && st.held = none) = true := by
    decide +kernel
  obtain ⟨y, run, there⟩ := (Option.any_eq_true _ _).1 found
  obtain ⟨st, standing, facts⟩ := (Option.any_eq_true _ _).1 there
  obtain ⟨kinds, held⟩ := Bool.and_eq_true_iff.1 facts
  have reached := reaches_of_run? run
  have new : IsNew 0 { scene := (Fleet.small ⟨0⟩).scene } :=
    ⟨rfl, _, rfl, rfl, rfl, rfl⟩
  obtain ⟨st', same, lifeline, bound, ready⟩ := agreement_of_reaches new reached
  obtain rfl : st = st' := Option.some.inj (standing.symm.trans same)
  have held : st.held = none := of_decide_eq_true held
  refine ⟨y, st, reached, standing, of_decide_eq_true kinds, lifeline, bound.trans held, ?_⟩
  rw [Ne, (ready _).2, held]
  simp

end Session

end LeasePool
