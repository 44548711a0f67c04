import LeasePool.Kubernetes.Server
import LeasePool.Proofs.Membership.Lifeline
import LeasePool.Proofs.World.Conversations

/-!
# What ends a membership

A member controller gives up the lease that it holds only on evidence that its claim is gone: the
lease is missing, somebody else has it, or the renewal was refused because the lease is not what it
was, or not there. Whatever else a store may reply, or if it never does, the controller goes on
holding the lease. A server gives such evidence by the status of a response, or by a lease in its
body.
-/

namespace LeasePool

/-- Nobody else changes what is known of the membership of a replica. -/
def Counterpart.Spares (w : Counterpart) (i : Nat) : Prop :=
  ∀ n s c x, w n s c = some x → x.scene.standing? i = s.standing? i

/-- The replies to an attempt to renew the claim of a participant on a lease are evidence that the
claim is gone. -/
inductive Participant.IsRefuted (p : Participant) (name : String) (w : Counterpart) (s : Scene) :
    Prop
  /-- There is no such lease. -/
  | missing {x : Service (.getLease p.pool.ns name)}
    (read : w 0 s (.getLease p.pool.ns name) = some x) (nothing : x.reply = .ok none)
  /-- Somebody else has the lease, and may keep it for now. -/
  | taken {x : Service (.getLease p.pool.ns name)} {l : Lease} {t : Instant}
    (read : w 0 s (.getLease p.pool.ns name) = some x) (found : x.reply = .ok (some l))
    (now : x.scene.now? = some t) (kept : l.availableTo? p.pod t = some false)
  /-- The lease is not what it was when it was read, or has gone since. -/
  | refused {x : Service (.getLease p.pool.ns name)} {l : Lease} {t : Instant}
    {y : Service (.updateLease (l.edit (.claim p.pod (.utc t))))} {e : PoolError}
    (read : w 0 s (.getLease p.pool.ns name) = some x) (found : x.reply = .ok (some l))
    (now : x.scene.now? = some t) (free : l.availableTo? p.pod t = some true)
    (counts : l.admits p.pod = true)
    (write : w 1 x.scene (.updateLease (l.edit (.claim p.pod (.utc t)))) = some y)
    (refusal : y.reply = .error e) (lost : e.isConflict = true ∨ e.isNotFound = true)

namespace Scene

variable {s t : Scene} {i n : Nat} {st : Standing} {w : Counterpart}

/-- Who announces nothing changes nothing about what is known. -/
theorem standing?_converse {α : Type} {x : Operation α} (silent : x.IsSilent)
    (spares : w.Spares i) : (s.converse i w n x).scene.standing? i = s.standing? i := by
  induction x generalizing n s with
  | done a => rfl
  | crash => rfl
  | call c next ih =>
    rw [converse_of_call]
    split
    · rename_i x hx
      exact (ih _ (silent _)).trans (spares n s c x hx)
    · rfl
  | ask q next ih =>
    rw [converse_of_ask]
    cases answer : s.ask i q with
    | none => rfl
    | some reply =>
      obtain ⟨a, t⟩ := reply
      have same : t.standing? i = s.standing? i := by
        cases q with
        | now =>
          obtain ⟨now, -, same⟩ := Option.map_eq_some_iff.1 answer
          cases same
          rfl
        | heldLease | knownDeployment => cases answer; rfl
        | setKnownDeployment | enter | leave =>
          cases answer
          exact standing?_modifyReplica fun _ => ⟨rfl, rfl, rfl⟩
        | announce => exact silent.elim
      refine (ih a ?_).trans same
      cases q with
      | announce => exact silent.elim
      | _ => exact silent a

end Scene

namespace Participant

variable {p : Participant} {name : String} {w : Counterpart} {s : Scene} {i : Nat}

/-- What is evidence when the read was replied to. -/
theorem isRefuted_iff_of_read {x : Service (.getLease p.pool.ns name)}
    (read : w 0 s (.getLease p.pool.ns name) = some x) :
    p.IsRefuted name w s ↔ x.reply = .ok none ∨
      ∃ l t, x.reply = .ok (some l) ∧ x.scene.now? = some t ∧
        (l.availableTo? p.pod t = some false ∨ l.availableTo? p.pod t = some true ∧
          l.admits p.pod = true ∧
            ∃ y e, w 1 x.scene (.updateLease (l.edit (.claim p.pod (.utc t)))) = some y ∧
              y.reply = .error e ∧ (e.isConflict = true ∨ e.isNotFound = true)) := by
  constructor
  · rintro (⟨read', nothing⟩ | ⟨read', found, now, kept⟩ |
      ⟨read', found, now, free, counts, write, refusal, lost⟩) <;>
      obtain rfl := Option.some.inj (read.symm.trans read')
    · exact .inl nothing
    · exact .inr ⟨_, _, found, now, .inl kept⟩
    · exact .inr ⟨_, _, found, now, .inr ⟨free, counts, _, _, write, refusal, lost⟩⟩
  · rintro (nothing | ⟨l, t, found, now, kept | ⟨free, counts, y, e, write, refusal, lost⟩⟩)
    · exact .missing read nothing
    · exact .taken read found now kept
    · exact .refused read found now free counts write refusal lost

/-- A renewal of a lease that was read ends without a lease exactly if it is written and the write
is refused. -/
theorem result?_renew_iff {l : Lease} {n : Nat} {t : Instant} (now : s.now? = some t) :
    (s.converse i w n (Pool.renew l p.pod).run).result? = some (.ok none) ↔
      l.admits p.pod = true ∧
        ∃ y e, w n s (.updateLease (l.edit (.claim p.pod (.utc t)))) = some y ∧
          y.reply = .error e ∧ (e.isConflict = true ∨ e.isNotFound = true) := by
  by_cases admits : l.admits p.pod = true
  case neg =>
    rw [Pool.renew_of_not_admits admits, Scene.converse_now, now]
    exact ⟨nofun, fun h => absurd h.1 admits⟩
  rw [Pool.renew_of_admits admits, Scene.converse_now, now]
  simp only [admits, true_and]
  rw [Pool.writeClaim, Scene.converse_reply]
  cases w n s (.updateLease (l.edit (.claim p.pod (.utc t)))) with
  | none => simp
  | some y =>
    rcases y with ⟨e | l', decided, after⟩
    · by_cases lost : e.isConflict = true ∨ e.isNotFound = true <;> simp [lost, Scene.converse]
    · simp [Scene.converse]

/-- A renewal ends without a lease exactly on evidence. -/
theorem result?_renewByName_iff :
    (s.converse i w 0 (p.pool.renewByName name p.pod).run).result? = some (.ok none) ↔
      p.IsRefuted name w s := by
  rw [Pool.renewByName, Scene.converse_call]
  cases read : w 0 s (.getLease p.pool.ns name) with
  | none =>
    refine ⟨by rintro ⟨⟩, ?_⟩
    rintro (⟨read', -⟩ | ⟨read', -⟩ | ⟨read', -⟩) <;> · rw [read] at read'; contradiction
  | some x =>
    rw [isRefuted_iff_of_read read]
    rcases x with ⟨e | _ | l, decided, after⟩
    · simp
    · exact ⟨fun _ => .inl rfl, fun _ => rfl⟩
    · simp only [Conversation.result?_since]
      rw [Scene.converse_now]
      cases now : after.now? with
      | none => simp
      | some t =>
        simp only
        rw [Pool.available, Scene.converse_orCrash]
        cases free : l.availableTo? p.pod t with
        | none => simp [free]
        | some vacant =>
          cases vacant with
          | false => simp [free, Scene.converse]
          | true => simp [free, result?_renew_iff now]

/-- **What an attempt to renew comes to** for a controller that holds a lease. On evidence the
lease is lost, and otherwise nothing happens to the membership. -/
theorem standing?_converse_acquire {st : Standing} (known : s.standing? i = some st)
    (held : st.held = some name) (spares : w.Spares i) :
    (st.participant.IsRefuted name w s →
      (s.converse i w 0 st.participant.acquire.run).scene.standing? i =
        some (st.announced .lost name)) ∧
    (¬ st.participant.IsRefuted name w s →
      (s.converse i w 0 st.participant.acquire.run).scene.standing? i = some st) := by
  have holds : s.ask i .heldLease = some (some name, s) := by
    obtain ⟨r, hr, rfl⟩ := Option.map_eq_some_iff.1 known
    have held : r.held = some name := held
    rw [Scene.ask, hr, Option.bind_some, held]
  have silent : (st.participant.pool.renewByName name st.participant.pod).run.IsSilent :=
    Pool.asks_renewByName.isSilent
  have same := (Scene.standing?_converse (s := s) (n := 0) silent spares).trans known
  rw [acquire, Scene.converse_ask, holds]
  simp only
  rw [Scene.converse_then, ← result?_renewByName_iff (i := i)]
  rcases hk : s.converse i w 0
      (st.participant.pool.renewByName name st.participant.pod).run with
    ⟨s', rounds, _ | e | _ | l⟩ <;> rw [hk] at same
  · exact ⟨by rintro ⟨⟩, fun _ => same⟩
  · exact ⟨by rintro ⟨⟩, fun _ => same⟩
  · refine ⟨fun _ => ?_, fun other => absurd rfl other⟩
    exact Scene.standing?_announce same
  · exact ⟨by rintro ⟨⟩, fun _ => same⟩

end Participant

/-! ## Evidence from a server -/

/-- Who keeps others off a lease: somebody else, whose claim ends at a date that has not passed. -/
theorem Lease.availableTo?_eq_some_false_iff {l : Lease} {pod : String} {t : Instant} :
    l.availableTo? pod t = some false ↔
      ∃ q time, l.holder? = some q ∧ q ≠ pod ∧ l.expiry = .at time ∧ t ≤ time.instant := by
  rw [availableTo?]
  cases l.holder? with
  | none => simp
  | some q =>
    cases l.expiry with
    | unlimited | outOfRange => simp
    | «at» time =>
      have order : ¬ time.instant < t ↔ t ≤ time.instant := Int.not_lt
      constructor
      · intro kept
        obtain ⟨early, other⟩ := Bool.or_eq_false_iff.1 (Option.some.inj kept)
        exact ⟨q, time, rfl, by simpa using other, rfl, order.1 (by simpa using early)⟩
      · rintro ⟨_, _, ⟨⟩, other, ⟨⟩, early⟩
        simp [other, order.2 early]

namespace ApiServer

/-- A call is sent to the server, and there is a response. -/
def Responds (server : ApiServer) (files : Files) (send : Http.Request → Option Http.Response)
    (c : StoreCall) (r : Http.Response) : Prop :=
  ∃ token request, server.token files = .ok token ∧ server.request? token c = some request ∧
    request.isSendable = true ∧ send request = some r

/-- A server behind a network, while others do something. Calls are numbered; which files there
are and what comes back for a request may be different each time. -/
def counterpart (server : ApiServer) (files : Nat → Files)
    (network : Nat → Scene → Http.Request → Option Http.Response) (others : Nat → Scene → Scene) :
    Counterpart := fun n s c =>
  (server.exchange (files n) (network n s) c).map fun exchanged =>
    { reply := exchanged.2, decided := others n s, scene := others n s }

/-- The lease in the body of a response. -/
def leaseIn? (r : Http.Response) : Option Lease :=
  (Json.ofBytes? r.body).bind (Lease.decode? Json.depthLimit)

/-- The responses to an attempt to renew the claim of a participant on a lease are evidence that the
claim is gone. -/
inductive Refutes (server : ApiServer) (files : Nat → Files)
    (network : Nat → Scene → Http.Request → Option Http.Response) (others : Nat → Scene → Scene)
    (p : Participant) (name : String) (s : Scene) : Prop
  /-- The lease is not found. -/
  | missing {r : Http.Response}
    (read : server.Responds (files 0) (network 0 s) (.getLease p.pool.ns name) r)
    (status : r.status = 404)
  /-- The lease is somebody else's, and the claim has not expired. -/
  | taken {r : Http.Response} {l : Lease} {q : String} {time : Stamp} {t : Instant}
    (read : server.Responds (files 0) (network 0 s) (.getLease p.pool.ns name) r)
    (success : r.isSuccess = true) (body : leaseIn? r = some l) (held : l.holder? = some q)
    (other : q ≠ p.pod) (ends : l.expiry = .at time) (now : (others 0 s).now? = some t)
    (early : t ≤ time.instant)
  /-- The renewal is refused because of a conflict, or the lease is not found then. -/
  | refused {r r' : Http.Response} {l : Lease} {t : Instant}
    (read : server.Responds (files 0) (network 0 s) (.getLease p.pool.ns name) r)
    (success : r.isSuccess = true) (body : leaseIn? r = some l)
    (now : (others 0 s).now? = some t) (free : l.availableTo? p.pod t = some true)
    (counts : l.admits p.pod = true)
    (write : server.Responds (files 1) (network 1 (others 0 s))
      (.updateLease (l.edit (.claim p.pod (.utc t)))) r')
    (status : r'.status = 404 ∨ r'.status = 409)

variable {server : ApiServer} {files : Files} {send : Http.Request → Option Http.Response}
  {c : StoreCall} {r : Http.Response}

/-- Whether there is a request for a call does not depend on the token. -/
theorem exists_request?_of_some {token token' : Option String} {request : Http.Request}
    (made : server.request? token c = some request) :
    ∃ request', server.request? token' c = some request' := by
  cases c with
  | getLease | listLeases | getWorkload => exact ⟨_, rfl⟩
  | createLease l | updateLease l =>
    obtain ⟨body, encoded, -⟩ := Option.bind_eq_some_iff.1 made
    exact ⟨_, by rw [request?, encoded]; rfl⟩

/-- A response is made into a reply. -/
theorem exchange_of_responds (h : server.Responds files send c r) :
    ∃ sent, server.exchange files send c = some (sent, c.replyOf r) := by
  obtain ⟨token, request, credentials, made, sendable, response⟩ := h
  obtain ⟨draft, begun⟩ : ∃ draft, server.request? none c = some draft :=
    exists_request?_of_some made
  refine ⟨some request, ?_⟩
  simp [exchange, begun, credentials, made, sendable, response]

/-- A reply is what a response is made into, or else an error that has nothing to do with the
object. -/
theorem responds_of_exchange {sent : Option Http.Request} {reply : c.Reply}
    (h : server.exchange files send c = some (sent, reply)) :
    (∃ r, server.Responds files send c r ∧ reply = c.replyOf r) ∨
      ∃ e, reply = .error e ∧ e.isConflict = false ∧ e.isNotFound = false := by
  obtain ⟨draft, begun, h⟩ := Option.bind_eq_some_iff.1 h
  cases credentials : server.token files with
  | error e =>
    obtain ⟨cause, rfl⟩ : ∃ cause, e = .configuration cause := by
      simp only [token] at credentials
      split at credentials
      · contradiction
      · split at credentials <;> cases credentials
        exact ⟨_, rfl⟩
    rw [credentials] at h
    cases h
    exact .inr ⟨_, rfl, rfl, rfl⟩
  | ok token =>
    rw [credentials] at h
    obtain ⟨request, made, h⟩ := Option.bind_eq_some_iff.1 h
    split at h
    · rename_i sendable
      cases response : send request with
      | none =>
        rw [response] at h
        cases h
        exact .inr ⟨_, rfl, rfl, rfl⟩
      | some r =>
        rw [response] at h
        cases h
        exact .inl ⟨r, ⟨token, request, credentials, made, sendable, response⟩, rfl⟩
    · cases h
      exact .inr ⟨_, rfl, rfl, rfl⟩

/-! ### What responses are made into -/

/-- A success is no failure. -/
theorem status_of_isSuccess (success : r.isSuccess = true) : 200 ≤ r.status ∧ r.status < 300 := by
  simpa [Http.Response.isSuccess] using success

theorem replyOf_getLease_eq_none_iff {ns name : String} :
    (StoreCall.getLease ns name).replyOf r = .ok none ↔ r.status = 404 := by
  rw [StoreCall.replyOf, StoreCall.optional]
  split
  · rename_i missing
    simp [missing]
  · rename_i other
    cases (StoreCall.getLease ns name).outcome (Lease.decode? Json.depthLimit) r <;>
      simp [other, Except.map]

theorem replyOf_getLease_eq_some_iff {ns name : String} {l : Lease} :
    (StoreCall.getLease ns name).replyOf r = .ok (some l) ↔
      r.isSuccess = true ∧ leaseIn? r = some l := by
  rw [StoreCall.replyOf, StoreCall.optional, leaseIn?]
  split
  · rename_i missing
    have failure : r.isSuccess = false := by simp [Http.Response.isSuccess, missing]
    simp [failure]
  · rw [StoreCall.outcome]
    split
    · rename_i success
      cases (Json.ofBytes? r.body).bind (Lease.decode? Json.depthLimit) <;>
        simp [success, Except.map]
    · rename_i failure
      simp [failure, Except.map]

/-- Only two statuses tell that a lease is not what it was, or not there. -/
theorem replyOf_updateLease_lost_iff {l : Lease} :
    (∃ e, (StoreCall.updateLease l).replyOf r = .error e ∧
      (e.isConflict = true ∨ e.isNotFound = true)) ↔ r.status = 404 ∨ r.status = 409 := by
  rw [StoreCall.replyOf, StoreCall.outcome]
  split
  · rename_i success
    have range := status_of_isSuccess success
    have other : ¬ (r.status = 404 ∨ r.status = 409) := by omega
    cases (Json.ofBytes? r.body).bind (Lease.decode? Json.depthLimit) <;>
      simp [other, PoolError.isConflict, PoolError.isNotFound]
  · simp only [Except.error.injEq, exists_eq_left', StoreCall.errorOf]
    by_cases conflict : r.status = 409
    · simp [conflict, PoolError.isConflict]
    · by_cases missing : r.status = 404 <;>
        simp [conflict, missing, PoolError.isConflict, PoolError.isNotFound]

/-! ### Evidence -/

section

variable {files : Nat → Files} {network : Nat → Scene → Http.Request → Option Http.Response}
  {others : Nat → Scene → Scene} {n : Nat} {s : Scene} {p : Participant} {name : String}

/-- What becomes of a call to a server. -/
theorem exists_of_counterpart {x : Service c}
    (h : server.counterpart files network others n s c = some x) :
    x.scene = others n s ∧
      ((∃ r, server.Responds (files n) (network n s) c r ∧ x.reply = c.replyOf r) ∨
        ∃ e, x.reply = .error e ∧ e.isConflict = false ∧ e.isNotFound = false) := by
  obtain ⟨⟨sent, reply⟩, exchanged, rfl⟩ := Option.map_eq_some_iff.1 h
  exact ⟨rfl, responds_of_exchange exchanged⟩

/-- A response is replied with. -/
theorem counterpart_of_responds (h : server.Responds (files n) (network n s) c r) :
    server.counterpart files network others n s c =
      some { reply := c.replyOf r, decided := others n s, scene := others n s } := by
  obtain ⟨sent, exchanged⟩ := exchange_of_responds h
  rw [counterpart, exchanged]
  rfl

/-- **The evidence in the replies is that in the responses.** -/
theorem isRefuted_counterpart_iff :
    p.IsRefuted name (server.counterpart files network others) s ↔
      server.Refutes files network others p name s := by
  constructor
  · intro h
    cases h with
    | missing read nothing =>
      obtain ⟨-, ⟨r, responds, reply⟩ | ⟨e, reply, -⟩⟩ := exists_of_counterpart read
      · exact .missing responds (replyOf_getLease_eq_none_iff.1 (reply.symm.trans nothing))
      · rw [nothing] at reply; contradiction
    | taken read found now kept =>
      obtain ⟨after, ⟨r, responds, reply⟩ | ⟨e, reply, -⟩⟩ := exists_of_counterpart read
      · obtain ⟨success, body⟩ := replyOf_getLease_eq_some_iff.1 (reply.symm.trans found)
        obtain ⟨q, time, held, other, ends, early⟩ := Lease.availableTo?_eq_some_false_iff.1 kept
        exact .taken responds success body held other ends (after ▸ now) early
      · rw [found] at reply; contradiction
    | @refused x l t y e read found now free counts write refusal lost =>
      obtain ⟨after, ⟨r, responds, reply⟩ | ⟨e, reply, -⟩⟩ := exists_of_counterpart read
      · obtain ⟨success, body⟩ := replyOf_getLease_eq_some_iff.1 (reply.symm.trans found)
        rw [after] at now write
        obtain ⟨-, ⟨r', responds', reply'⟩ | ⟨e', reply', conflict, missing⟩⟩ :=
          exists_of_counterpart write
        · exact .refused responds success body now free counts responds'
            (replyOf_updateLease_lost_iff.1 ⟨e, reply'.symm.trans refusal, lost⟩)
        · obtain rfl := Except.error.inj (reply'.symm.trans refusal)
          simp [conflict, missing] at lost
      · rw [found] at reply; contradiction
  · intro h
    cases h with
    | missing read status =>
      exact .missing (counterpart_of_responds read) (replyOf_getLease_eq_none_iff.2 status)
    | taken read success body held other ends now early =>
      exact .taken (counterpart_of_responds read)
        (replyOf_getLease_eq_some_iff.2 ⟨success, body⟩) now
        (Lease.availableTo?_eq_some_false_iff.2 ⟨_, _, held, other, ends, early⟩)
    | refused read success body now free counts write status =>
      obtain ⟨e, refusal, lost⟩ := replyOf_updateLease_lost_iff.2 status
      exact .refused (counterpart_of_responds read)
        (replyOf_getLease_eq_some_iff.2 ⟨success, body⟩) now free counts
        (counterpart_of_responds write) refusal lost

end

end ApiServer

/-! ## Memberships that end -/

/-- What was known of a membership has come to what is known afterwards: the lease has been lost,
and the loss was announced, exactly if the claim is gone, and otherwise it is all as it was. -/
def Standing.IsLostIf (st : Standing) (name : String) (gone : Prop) (after : Option Standing) :
    Prop :=
  (after = some (st.announced .lost name) ↔ gone) ∧ (after = some st ↔ ¬ gone)

namespace Participant

/-- **A lease is lost on evidence and on nothing else.** When a controller that holds a lease
renews its claim, then whatever its store replies, if it does, the lease is lost exactly on evidence
that the claim is gone: the controller holds nothing then, its coordinator knows, and one event was
announced. Otherwise it holds the lease as before, and nothing was announced. Where the store is a
server, the evidence is a response that the lease is not found, or a lease that somebody else
holds for now, or a response to the renewal that there is a conflict or no such lease. -/
theorem lost_iff_refuted {s : Scene} {i : Nat} {st : Standing} {name : String}
    (known : s.standing? i = some st) (held : st.held = some name) :
    (∀ w : Counterpart, w.Spares i → st.IsLostIf name (st.participant.IsRefuted name w s)
      ((s.converse i w 0 st.participant.acquire.run).scene.standing? i)) ∧
    ∀ (server : ApiServer) (files : Nat → Files)
      (network : Nat → Scene → Http.Request → Option Http.Response) (others : Nat → Scene → Scene),
      (∀ n s, (others n s).standing? i = s.standing? i) →
      st.IsLostIf name (server.Refutes files network others st.participant name s)
        ((s.converse i (server.counterpart files network others) 0
          st.participant.acquire.run).scene.standing? i) := by
  have decided : ∀ w : Counterpart, w.Spares i →
      st.IsLostIf name (st.participant.IsRefuted name w s)
        ((s.converse i w 0 st.participant.acquire.run).scene.standing? i) := by
    intro w spares
    obtain ⟨yes, no⟩ := standing?_converse_acquire known held spares
    have other : some (st.announced .lost name) ≠ some st := by
      intro same
      have held' : none = st.held := congrArg Standing.held (Option.some.inj same)
      rw [held] at held'
      contradiction
    refine ⟨⟨fun after => ?_, yes⟩, ⟨fun after gone => ?_, no⟩⟩
    · exact Classical.byContradiction fun kept => other (after.symm.trans (no kept))
    · exact other ((yes gone).symm.trans after)
  refine ⟨decided, fun server files network others spare => ?_⟩
  rw [← ApiServer.isRefuted_counterpart_iff]
  refine decided _ fun n s c x hx => ?_
  rw [(ApiServer.exists_of_counterpart hx).1]
  exact spare n s

/-- A participant that holds the member lease `m`. -/
def holdingScene : Scene where
  clock := ⟨.utc ⟨0⟩⟩
  replicas :=
    [{ participant := .small "a", check := { pool := "pool", identity := ⟨"ns", "a"⟩ }
       held := some "m", coordinator := ({} : Coordinator).deliver .acquired "m" }]

/-- What is known of that membership. -/
def holdingStanding : Standing where
  participant := .small "a"
  held := some "m"
  coordinator := ({} : Coordinator).deliver .acquired "m"
  events := []

/-- It is lost when a server does not find the lease, and not lost when the server is down. -/
theorem lost_holdingScene :
    holdingScene.standing? 0 = some holdingStanding ∧ holdingStanding.held = some "m" ∧
    ∀ status, status = 404 ∨ status = 503 →
      (holdingScene.converse 0 (ApiServer.counterpart { base := "http://127.0.0.1:8001" }
          (fun _ => Files.none) (fun _ _ _ => some ⟨status, []⟩) (fun _ s => s)) 0
          holdingStanding.participant.acquire.run).scene.standing? 0 =
        if status = 404 then some (holdingStanding.announced .lost "m")
        else some holdingStanding := by
  have known : holdingScene.standing? 0 = some holdingStanding := by decide +kernel
  refine ⟨known, rfl, fun status h => ?_⟩
  obtain ⟨lost, kept⟩ := (lost_iff_refuted known rfl).2 { base := "http://127.0.0.1:8001" }
    (fun _ => Files.none) (fun _ _ _ => some ⟨status, []⟩) (fun _ s => s) fun _ _ => rfl
  rcases h with rfl | rfl
  · refine lost.2 (.missing (r := ⟨404, []⟩) ⟨none, _, rfl, rfl, rfl, rfl⟩ rfl)
  · refine kept.2 fun gone => ?_
    have other : ∀ {c r}, ApiServer.Responds { base := "http://127.0.0.1:8001" } Files.none
        (fun _ => some ⟨503, []⟩) c r → r = ⟨503, []⟩ := by
      rintro c r ⟨token, request, -, -, -, response⟩
      exact (Option.some.inj response).symm
    cases gone with
    | missing read status => rw [other read] at status; contradiction
    | taken read success => rw [other read] at success; contradiction
    | refused read success => rw [other read] at success; contradiction

end Participant

end LeasePool
