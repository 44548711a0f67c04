import LeasePool.Proofs.World.Conversations
import LeasePool.Proofs.Pool.LookUps

/-!
# What a process remembers of its deployment

A process remembers the name of its deployment, and asks for that name first. Anything may happen
to the stored objects in the meantime, and any request may fail. Nevertheless what a process is
told is never out of date: it is the deployment that is stored when the last request is answered,
under a name to which the owners of the pod have led once, and which has been there ever since.
-/

namespace LeasePool

/-! ## Requests and their answers -/

namespace Round

/-- The round is a request for a workload, and this is the answer to it. -/
inductive Answers (kind : WorkloadKind) (ns name : String) (found? : Option Workload) :
    Round → Prop
  | intro {x : Service (.getWorkload kind ns name)} (replied : x.reply = .ok found?) :
    Answers kind ns name found? ⟨.getWorkload kind ns name, x⟩

/-- The request of the round has failed. -/
def IsRefused (r : Round) : Prop := ∃ e, r.service.reply = .error e

/-- A request has one answer at most. -/
theorem Answers.unique {kind : WorkloadKind} {ns name : String} {found? found?' : Option Workload}
    {r : Round} (h : r.Answers kind ns name found?) (h' : r.Answers kind ns name found?') :
    found? = found?' := by
  cases h with
  | intro replied =>
    cases h' with
    | intro replied' => exact Except.ok.inj (replied.symm.trans replied')

theorem IsRefused.not_answers {kind : WorkloadKind} {ns name : String} {found? : Option Workload}
    {r : Round} (refused : r.IsRefused) : ¬ r.Answers kind ns name found? := by
  intro answered
  obtain ⟨e, failed⟩ := refused
  cases answered with
  | intro replied =>
    rw [replied] at failed
    contradiction

end Round

/-- The owners of a pod have led to a deployment of this name, and it was there. -/
inductive IsWalk (pod : Identity) (name : String) : List Round → Prop
  | intro {r₁ r₂ r₃ : Round} {found replicaSet deployment : Workload} {setName : String}
    (first : r₁.Answers .pod pod.ns pod.pod (some found))
    (controlled : found.metadata.ownerName? WorkloadKind.replicaSet.name = some setName)
    (second : r₂.Answers .replicaSet pod.ns setName (some replicaSet))
    (owned : replicaSet.metadata.ownerName? WorkloadKind.deployment.name = some name)
    (third : r₃.Answers .deployment pod.ns name (some deployment)) :
    IsWalk pod name [r₁, r₂, r₃]

/-- The owners of the pod have led to the name, and since then no request has found that there is
no deployment of this name. -/
def IsVouched (pod : Identity) (name : String) (rounds : List Round) : Prop :=
  ∃ early walk late, rounds = early ++ walk ++ late ∧ IsWalk pod name walk ∧
    ∀ r ∈ late, ¬ r.Answers .deployment pod.ns name none

namespace IsVouched

variable {pod : Identity} {name : String} {rounds more : List Round}

theorem of_walk (h : IsWalk pod name more) : IsVouched pod name (rounds ++ more) :=
  ⟨rounds, more, [], (List.append_nil _).symm, h, List.forall_mem_nil _⟩

/-- A name stays vouched for until it is missed. -/
theorem append (h : IsVouched pod name rounds)
    (there : ∀ r ∈ more, ¬ r.Answers .deployment pod.ns name none) :
    IsVouched pod name (rounds ++ more) := by
  obtain ⟨early, walk, late, rfl, walked, since⟩ := h
  refine ⟨early, walk, late ++ more, by simp, walked, ?_⟩
  intro r hr
  rcases List.mem_append.1 hr with hr | hr
  · exact since r hr
  · exact there r hr

end IsVouched

/-! ## Visits -/

/-- What a process asks about its deployment. -/
inductive Inquiry where
  /-- How many members the pool should have. -/
  | replicas
  /-- Who owns new leases. -/
  | owners
  deriving DecidableEq

namespace Inquiry

/-- What an inquiry is answered with. -/
abbrev Answer : Inquiry → Type
  | replicas => Option Int32
  | owners => List OwnerReference

/-- What a process does to find out. -/
def attempt (pod : Identity) : (q : Inquiry) → Attempt q.Answer
  | replicas => (Topology.deployment pod).desiredReplicas?
  | owners => (Topology.deployment pod).owners

/-- The answer that follows from what was found. -/
def answer (found? : Option Workload) : (q : Inquiry) → q.Answer
  | replicas => found?.bind (·.replicas)
  | owners => found?.toList.map Topology.ownerOf

theorem attempt_eq {pod : Identity} {q : Inquiry} :
    q.attempt pod = Topology.deployment? pod >>= fun found? => return q.answer found? := by
  cases q <;> rfl

/-- Without a deployment there is no answer to speak of, and otherwise there is one unless the
deployment does not say. -/
theorem replicas_of_answer_eq {d : Workload} {q : Inquiry}
    (silent : q.answer (some d) = q.answer none) : q = replicas ∧ d.replicas = none := by
  cases q with
  | replicas => exact ⟨rfl, silent⟩
  | owners => simp [answer] at silent

end Inquiry

/-- An inquiry, with the requests that fail, and with what happens to the store before each
request. -/
structure Visit where
  inquiry : Inquiry
  refuse : Nat → StoreCall → Option PoolError := fun _ _ => none
  meanwhile : Nat → MemoryStore → MemoryStore := fun _ store => store

namespace Visit

open Attempt Scene

/-- The store during a visit. -/
def counterpart (v : Visit) : Counterpart :=
  .ofStore v.refuse (fun n s => { s with store := v.meanwhile n s.store }) fun _ s => s

/-- How a visit goes. -/
def hold (v : Visit) (pod : Identity) (i : Nat) (s : Scene) :
    Conversation (Except PoolError v.inquiry.Answer) :=
  s.converse i v.counterpart 0 (v.inquiry.attempt pod).run

/-- From some request on nothing happens to the store. -/
def IsSteadyFrom (v : Visit) (n : Nat) : Prop := ∀ m, n ≤ m → ∀ store, v.meanwhile m store = store

variable {v : Visit} {pod : Identity} {i n : Nat} {s : Scene} {α : Type}

/-- A request for a workload fails, or it is answered with what is stored by then. -/
theorem exists_reply {kind : WorkloadKind} {ns name : String} :
    ∃ reply : Except PoolError (Option Workload),
      v.counterpart n s (.getWorkload kind ns name) =
        some
          { reply, decided := { s with store := v.meanwhile n s.store }
            scene := { s with store := v.meanwhile n s.store } } ∧
      ((∃ e, reply = .error e) ∨
        reply = .ok ((v.meanwhile n s.store).workload? kind ns name)) := by
  simp only [counterpart, Counterpart.ofStore, MemoryStore.answer]
  cases v.refuse n (.getWorkload kind ns name) with
  | some e => exact ⟨.error e, rfl, .inl ⟨e, rfl⟩⟩
  | none =>
    cases (v.meanwhile n s.store).offline with
    | true => exact ⟨.error (.unavailable .offline), rfl, .inl ⟨_, rfl⟩⟩
    | false => exact ⟨.ok _, rfl, .inr rfl⟩

/-- What comes of a request for a workload: it ends the attempt, or the attempt goes on with the
answer. -/
theorem converse_getWorkload {kind : WorkloadKind} {ns name : String}
    (f : Option Workload → Attempt α) {t : Scene}
    (later : t = { s with store := v.meanwhile n s.store }) :
    (∃ r : Round, r.IsRefused ∧
      ∃ e, s.converse i v.counterpart n (call (.getWorkload kind ns name) >>= f).run =
        ⟨t, [r], some (.error e)⟩) ∨
    (∃ r : Round, r.Answers kind ns name (t.store.workload? kind ns name) ∧
      s.converse i v.counterpart n (call (.getWorkload kind ns name) >>= f).run =
        (t.converse i v.counterpart (n + 1)
          (f (t.store.workload? kind ns name)).run).since [r]) := by
  subst later
  have served : ∃ reply, v.counterpart n s (.getWorkload kind ns name) = some _ ∧ _ := exists_reply
  obtain ⟨reply, served, ⟨e, rfl⟩ | rfl⟩ := served
  · rw [converse_call, served]
    exact .inl ⟨_, ⟨e, rfl⟩, e, rfl⟩
  · rw [converse_call, served]
    exact .inr ⟨_, ⟨rfl⟩, rfl⟩

/-! ## Walks -/

/-- What is stored under a name has that name. -/
theorem name_of_workload? {store : MemoryStore} {kind : WorkloadKind} {ns name : String}
    {w : Workload} (h : store.workload? kind ns name = some w) : w.metadata.name = name := by
  have passes := List.find?_some h
  simp only [Bool.and_eq_true, decide_eq_true_eq] at passes
  exact passes.2

/-- How a walk goes that begins with request number `n`, takes a certain way, and leads to `goal`
if nobody disturbs it. -/
structure Walks (v : Visit) (pod : Identity) (i n : Nat) (s : Scene)
    (way : String → List Round → Prop) (goal : Option Workload)
    (o : Conversation (Except PoolError (Option Workload))) : Prop where
  ends : ∃ r, o.result? = some r
  /-- A deployment that was found is stored, and its name is remembered. -/
  found : ∀ d, o.result? = some (.ok (some d)) →
    o.scene.store.workload? .deployment pod.ns d.metadata.name = some d ∧
    way d.metadata.name o.rounds ∧
    (o.scene.remembered? i = some d.metadata.name ∨ o.scene.remembered? i = none)
  /-- Otherwise nothing else is remembered than before. -/
  lost : (∀ d, o.result? ≠ some (.ok (some d))) → o.scene.remembered? i = s.remembered? i
  /-- If the store is left alone, then a walk that does not fail leads where it should. -/
  steady : v.IsSteadyFrom n → o.scene.store = s.store ∧
    (o.result? = some (.ok goal) ∨
      (∃ e, o.result? = some (.error e)) ∧ ∃ r ∈ o.rounds, r.IsRefused)

variable {way : String → List Round → Prop} {goal : Option Workload}
  {G : MemoryStore → Option Workload}

/-- A walk that has led nowhere. -/
theorem walks_nowhere (nowhere : goal = none) :
    v.Walks pod i n s way goal ⟨s, [], some (.ok none)⟩ := by
  subst nowhere
  constructor
  · exact ⟨_, rfl⟩
  · rintro d ⟨⟩
  · exact fun _ => rfl
  · exact fun _ => ⟨rfl, .inl rfl⟩

/-- A walk goes on as it should after a request that is answered. -/
theorem walks_getWorkload {kind : WorkloadKind} {ns name : String}
    {f : Option Workload → Attempt (Option Workload)}
    (H : ∀ (t : Scene) (r : Round), r.Answers kind ns name (t.store.workload? kind ns name) →
      v.Walks pod i (n + 1) t (fun found rest => way found (r :: rest)) (G t.store)
        (t.converse i v.counterpart (n + 1) (f (t.store.workload? kind ns name)).run)) :
    v.Walks pod i n s way (G s.store)
      (s.converse i v.counterpart n (call (.getWorkload kind ns name) >>= f).run) := by
  have still : v.IsSteadyFrom n → v.meanwhile n s.store = s.store := fun h => h n (Nat.le_refl n) _
  rcases v.converse_getWorkload f rfl with ⟨r, refused, e, went⟩ | ⟨r, answered, went⟩
  · rw [went]
    constructor
    · exact ⟨_, rfl⟩
    · rintro d ⟨⟩
    · exact fun _ => rfl
    · exact fun h => ⟨still h, .inr ⟨⟨e, rfl⟩, r, List.mem_cons_self, refused⟩⟩
  · have goes := H { s with store := v.meanwhile n s.store } r answered
    rw [went]
    constructor
    · exact goes.ends
    · exact goes.found
    · exact goes.lost
    · intro h
      obtain ⟨store, result⟩ := goes.steady fun m hm => h m (Nat.le_of_succ_le hm)
      refine ⟨store.trans (still h), ?_⟩
      rcases result with arrived | ⟨failed, x, hx, refused⟩
      · have same : G (v.meanwhile n s.store) = G s.store := congrArg G (still h)
        rw [← same]
        exact .inl arrived
      · exact .inr ⟨failed, x, List.mem_cons_of_mem r hx, refused⟩

/-- **The last request of a walk**: a deployment that is there is remembered. -/
theorem walks_arrive {name : String}
    (leads : ∀ r d, r.Answers .deployment pod.ns name (some d) → way name [r]) :
    v.Walks pod i n s way (s.store.workload? .deployment pod.ns name)
      (s.converse i v.counterpart n (ExceptT.run (do
        match ← call (.getWorkload .deployment pod.ns name) with
        | none => return none
        | some owner =>
          ask (.setKnownDeployment (some name))
          return some owner))) := by
  refine walks_getWorkload (G := fun store => store.workload? .deployment pod.ns name) ?_
  intro t r answered
  cases there : t.store.workload? .deployment pod.ns name with
  | none => exact walks_nowhere rfl
  | some owner =>
    rw [there] at answered
    have named : owner.metadata.name = name := name_of_workload? there
    subst named
    constructor
    · exact ⟨_, rfl⟩
    · rintro d ⟨⟩
      exact ⟨there, leads r owner answered,
        remembered?_modifyReplica t i (some owner.metadata.name)⟩
    · intro nothing
      exact absurd rfl (nothing owner)
    · exact fun _ => ⟨rfl, .inl rfl⟩

/-- **A walk** from a pod to its deployment. -/
theorem walks_walk :
    v.Walks pod i n s (IsWalk pod) (Topology.walked? s.store pod)
      (s.converse i v.counterpart n (Topology.walk pod).run) := by
  refine walks_getWorkload (G := fun store => Topology.walked? store pod) ?_
  intro t₁ r₁ answered₁
  cases first : t₁.store.workload? .pod pod.ns pod.pod with
  | none => exact walks_nowhere (by simp [Topology.walked?, first])
  | some found =>
    simp only
    cases second : found.metadata.ownerName? WorkloadKind.replicaSet.name with
    | none => exact walks_nowhere (by simp [Topology.walked?, first, second])
    | some setName =>
      have onward : Topology.walked? t₁.store pod =
          (t₁.store.workload? .replicaSet pod.ns setName).bind fun set =>
            (set.metadata.ownerName? WorkloadKind.deployment.name).bind fun name =>
              t₁.store.workload? .deployment pod.ns name := by
        simp only [Topology.walked?, first, second, Option.bind_eq_bind, Option.bind_some]
      rw [onward]
      refine walks_getWorkload (G := fun store =>
        (store.workload? .replicaSet pod.ns setName).bind fun set =>
          (set.metadata.ownerName? WorkloadKind.deployment.name).bind fun name =>
            store.workload? .deployment pod.ns name) ?_
      intro t₂ r₂ answered₂
      cases third : t₂.store.workload? .replicaSet pod.ns setName with
      | none => exact walks_nowhere rfl
      | some replicaSet =>
        simp only [Option.bind_some]
        cases fourth : replicaSet.metadata.ownerName? WorkloadKind.deployment.name with
        | none => exact walks_nowhere rfl
        | some name =>
          rw [first] at answered₁
          rw [third] at answered₂
          simp only [Option.bind_some]
          refine walks_arrive ?_
          intro r₃ d answered₃
          exact .intro answered₁ second answered₂ fourth answered₃

/-! ## Look-ups -/

/-- The first request of all has asked for the name that the process remembered, and there was no
such deployment. -/
def IsStale (pod : Identity) (i : Nat) (s : Scene) (rounds : List Round) : Prop :=
  ∃ name first rest, s.remembered? i = some name ∧ rounds = first :: rest ∧
    first.Answers .deployment pod.ns name none

/-- A process that has nothing in mind any more. -/
def forgetful (s : Scene) (i : Nat) : Scene :=
  s.modifyReplica i fun r => { r with deployment := none }

/-- What comes of a look-up with the result `r`, after all the requests of the past. -/
structure Resolves (v : Visit) (pod : Identity) (i : Nat) (past : List Round) (s s' : Scene)
    (rounds : List Round) (r : Except PoolError (Option Workload)) : Prop where
  /-- The deployment is what is stored at the end. -/
  current : ∀ d, r = .ok (some d) →
    s'.store.workload? .deployment pod.ns d.metadata.name = some d
  /-- The owners of the pod have led to its name, and the name was never missed since. -/
  vouched : ∀ d, r = .ok (some d) → IsVouched pod d.metadata.name (past ++ rounds)
  /-- If the name that was remembered leads nowhere, then the rest is a walk of a process that has
  nothing in mind... -/
  fresh : IsStale pod i s rounds →
    (forgetful { s with store := v.meanwhile 0 s.store } i).converse i v.counterpart 1
      (Topology.walk pod).run = ⟨s', rounds.tail, some r⟩
  /-- ... and that finds what there is to be found, unless a request fails. -/
  steady : IsStale pod i s rounds → v.IsSteadyFrom 1 →
    r = .ok (Topology.walked? s'.store pod) ∨ (∃ e, r = .error e) ∧ ∃ x ∈ rounds, x.IsRefused
  /-- If no deployment is found, then none is remembered. -/
  forgotten : r = .ok none → s'.remembered? i = none
  /-- A look-up that fails changes nothing in what is remembered, unless that has been missed. -/
  failed : ∀ e, r = .error e → s'.remembered? i = s.remembered? i ∨
    s'.remembered? i = none ∧ IsStale pod i s rounds
  /-- What is remembered is vouched for. -/
  remembers : ∀ name, s'.remembered? i = some name → IsVouched pod name (past ++ rounds)

/-- Somebody with nothing in mind remembers nothing but where the walk has led. -/
theorem Walks.remembers {o : Conversation (Except PoolError (Option Workload))} {name : String}
    (W : v.Walks pod i n s (IsWalk pod) goal o) (unknown : s.remembered? i = none)
    (past : List Round) (known : o.scene.remembered? i = some name) :
    IsVouched pod name (past ++ o.rounds) := by
  by_cases found : ∃ d, o.result? = some (.ok (some d))
  · obtain ⟨d, found⟩ := found
    obtain ⟨-, walked, kept | kept⟩ := W.found d found
    · obtain rfl := Option.some.inj (kept.symm.trans known)
      exact .of_walk walked
    · rw [kept] at known
      contradiction
  · rw [W.lost (not_exists.1 found), unknown] at known
    contradiction

/-- Somebody with nothing in mind who does not find anything has nothing in mind. -/
theorem Walks.forgotten {o : Conversation (Except PoolError (Option Workload))}
    {r : Except PoolError (Option Workload)} (W : v.Walks pod i n s (IsWalk pod) goal o)
    (unknown : s.remembered? i = none) (ended : o.result? = some r)
    (nothing : ∀ d, r ≠ .ok (some d)) : o.scene.remembered? i = none := by
  refine (W.lost ?_).trans unknown
  intro d found
  exact nothing d (Option.some.inj (ended.symm.trans found))

theorem remembered?_forgetful : (forgetful s i).remembered? i = none := by
  rcases remembered?_modifyReplica s i none with known | known <;> exact known

section

variable {past : List Round} {first : Round} {name : String}
  (vouched : ∀ name, s.remembered? i = some name → IsVouched pod name past)

/-- Somebody with nothing in mind walks. -/
theorem resolves_of_unknown {o : Conversation (Except PoolError (Option Workload))}
    {r : Except PoolError (Option Workload)} (unknown : s.remembered? i = none)
    (W : v.Walks pod i 0 s (IsWalk pod) goal o) (ended : o.result? = some r) :
    v.Resolves pod i past s o.scene o.rounds r := by
  have fits : ¬ IsStale pod i s o.rounds := by
    rintro ⟨name, _, _, known, _⟩
    rw [unknown] at known
    contradiction
  constructor
  · exact fun d h => (W.found d (h ▸ ended)).1
  · exact fun d h => .of_walk (W.found d (h ▸ ended)).2.1
  · exact fun stale => absurd stale fits
  · exact fun stale => absurd stale fits
  · exact fun h => W.forgotten unknown ended (by simp [h])
  · exact fun e h => .inl ((W.forgotten unknown ended (by simp [h])).trans unknown.symm)
  · exact fun name => W.remembers unknown past

include vouched

/-- The request for the deployment with the name that is remembered has failed. -/
theorem resolves_of_refused {e : PoolError} (refused : first.IsRefused) {s' : Scene}
    (same : s'.remembered? i = s.remembered? i) :
    v.Resolves pod i past s s' [first] (.error e) := by
  have fits : ¬ IsStale pod i s [first] := by
    rintro ⟨_, _, _, _, h, missed⟩
    obtain ⟨rfl, -⟩ := List.cons.inj h
    exact refused.not_answers missed
  constructor
  · rintro d ⟨⟩
  · rintro d ⟨⟩
  · exact fun stale => absurd stale fits
  · exact fun stale => absurd stale fits
  · rintro ⟨⟩
  · exact fun e _ => .inl same
  · intro name known
    refine (vouched name (same ▸ known)).append ?_
    intro r hr
    obtain rfl := List.mem_singleton.1 hr
    exact refused.not_answers

/-- The deployment with the name that is remembered is there. -/
theorem resolves_of_there {d : Workload} {s' : Scene} (same : s'.remembered? i = s.remembered? i)
    (known : s.remembered? i = some name)
    (answered : first.Answers .deployment pod.ns name (some d))
    (there : s'.store.workload? .deployment pod.ns name = some d) :
    v.Resolves pod i past s s' [first] (.ok (some d)) := by
  have fits : ¬ IsStale pod i s [first] := by
    rintro ⟨name', _, _, known', h, missed⟩
    obtain ⟨rfl, -⟩ := List.cons.inj h
    obtain rfl := Option.some.inj (known.symm.trans known')
    simpa using answered.unique missed
  have since : IsVouched pod name (past ++ [first]) := by
    refine (vouched name known).append ?_
    intro r hr missed
    obtain rfl := List.mem_singleton.1 hr
    simpa using answered.unique missed
  have named : d.metadata.name = name := name_of_workload? there
  subst named
  constructor
  · rintro d ⟨⟩
    exact there
  · rintro d ⟨⟩
    exact since
  · exact fun stale => absurd stale fits
  · exact fun stale => absurd stale fits
  · rintro ⟨⟩
  · rintro e ⟨⟩
  · intro name known'
    rw [same, known] at known'
    obtain rfl := Option.some.inj known'
    exact since

omit vouched in
/-- There is no deployment with the name that is remembered. -/
theorem resolves_of_missed {o : Conversation (Except PoolError (Option Workload))}
    {r : Except PoolError (Option Workload)} (known : s.remembered? i = some name)
    (missed : first.Answers .deployment pod.ns name none)
    (walk : (forgetful { s with store := v.meanwhile 0 s.store } i).converse i v.counterpart 1
      (Topology.walk pod).run = o) (ended : o.result? = some r) :
    v.Resolves pod i past s o.scene (first :: o.rounds) r := by
  have W : v.Walks pod i 1 (forgetful { s with store := v.meanwhile 0 s.store } i) (IsWalk pod)
      (Topology.walked? (v.meanwhile 0 s.store) pod) o := walk ▸ walks_walk
  have stale : IsStale pod i s (first :: o.rounds) := ⟨name, first, _, known, rfl, missed⟩
  have split : past ++ first :: o.rounds = (past ++ [first]) ++ o.rounds := by simp
  constructor
  · exact fun d h => (W.found d (h ▸ ended)).1
  · intro d h
    rw [split]
    exact .of_walk (W.found d (h ▸ ended)).2.1
  · intro _
    rw [walk, ← ended]
    rfl
  · intro _ steady
    obtain ⟨store, arrived | ⟨⟨e, failed⟩, x, hx, refused⟩⟩ := W.steady steady
    · have same : r = .ok _ := Option.some.inj (ended.symm.trans arrived)
      rw [store]
      exact .inl same
    · have same : r = .error e := Option.some.inj (ended.symm.trans failed)
      exact .inr ⟨⟨e, same⟩, x, List.mem_cons_of_mem first hx, refused⟩
  · exact fun h => W.forgotten remembered?_forgetful ended (by simp [h])
  · exact fun e h => .inr ⟨W.forgotten remembered?_forgetful ended (by simp [h]), stale⟩
  · intro name kept
    rw [split]
    exact W.remembers remembered?_forgetful _ kept

/-- **A look-up**, by the name that is remembered or by a walk, if that name is vouched for. -/
theorem resolves_deployment? :
    ∃ r, (s.converse i v.counterpart 0 (Topology.deployment? pod).run).result? = some r ∧
      v.Resolves pod i past s (s.converse i v.counterpart 0 (Topology.deployment? pod).run).scene
        (s.converse i v.counterpart 0 (Topology.deployment? pod).run).rounds r := by
  have asked : s.ask i .knownDeployment = some (s.remembered? i, s) := rfl
  rw [Topology.deployment?, converse_ask, asked]
  cases known : s.remembered? i with
  | none =>
    have W : v.Walks pod i 0 s (IsWalk pod) (Topology.walked? s.store pod) _ := walks_walk
    obtain ⟨r, ended⟩ := W.ends
    exact ⟨r, ended, resolves_of_unknown known W ended⟩
  | some name =>
    simp only
    rcases v.converse_getWorkload (i := i) (n := 0) (s := s) _ rfl with
      ⟨first, refused, e, went⟩ | ⟨first, answered, went⟩
    · rw [went]
      exact ⟨.error e, rfl, resolves_of_refused vouched refused rfl⟩
    · rw [went]
      cases there : (v.meanwhile 0 s.store).workload? .deployment pod.ns name with
      | some d =>
        rw [there] at answered
        exact ⟨.ok (some d), rfl, resolves_of_there vouched rfl known answered there⟩
      | none =>
        rw [there] at answered
        have W : v.Walks pod i 1 (forgetful { s with store := v.meanwhile 0 s.store } i)
            (IsWalk pod) _ _ := walks_walk
        obtain ⟨r, ended⟩ := W.ends
        exact ⟨r, ended, resolves_of_missed known answered rfl ended⟩

/-- A visit makes a look-up, and its answer follows from the result. -/
theorem resolves_hold :
    ∃ r : Except PoolError (Option Workload),
      (v.hold pod i s).result? = some (r.map fun found? => v.inquiry.answer found?) ∧
      v.Resolves pod i past s (v.hold pod i s).scene (v.hold pod i s).rounds r := by
  obtain ⟨r, ended, goes⟩ := resolves_deployment? (v := v) vouched
  rw [hold, Inquiry.attempt_eq, converse_then]
  generalize s.converse i v.counterpart 0 (Topology.deployment? pod).run = o at ended goes
  obtain ⟨s', rounds, result⟩ := o
  obtain rfl : result = some r := ended
  refine ⟨r, ?_⟩
  cases r with
  | error e => exact ⟨rfl, goes⟩
  | ok found? =>
    refine ⟨rfl, ?_⟩
    rw [← List.append_nil rounds] at goes
    exact goes

end

end Visit

/-! ## Any number of visits -/

/-- A process that has begun with nothing in mind and has made some visits since, and all requests
of these. Whatever else happens to the process and around it in between leaves what it remembers
alone. -/
inductive Inquired (pod : Identity) (i : Nat) : Scene → List Round → Prop
  | start {s : Scene} (nothing : s.remembered? i = none) : Inquired pod i s []
  | elsewhere {s s' : Scene} {past : List Round} (before : Inquired pod i s past)
    (same : s'.remembered? i = s.remembered? i) : Inquired pod i s' past
  | visit {s : Scene} {past : List Round} (before : Inquired pod i s past) (v : Visit) :
    Inquired pod i (v.hold pod i s).scene (past ++ (v.hold pod i s).rounds)

namespace Inquired

variable {pod : Identity} {i : Nat} {s : Scene} {past : List Round}

/-- **What is remembered is vouched for**, after any number of visits. -/
theorem isVouched (H : Inquired pod i s past) (name : String)
    (known : s.remembered? i = some name) : IsVouched pod name past := by
  induction H generalizing name with
  | start nothing =>
    rw [nothing] at known
    contradiction
  | elsewhere _ same ih => exact ih name (same ▸ known)
  | visit _ v ih =>
    obtain ⟨r, -, goes⟩ := Visit.resolves_hold (v := v) ih
    exact goes.remembers name known

/-- **A process is never told what is out of date**, after any number of visits, whatever happens
to the stored objects before any of its requests, and whichever of them fail. A deployment that is
found is what is stored at the end of the visit, under a name to which the owners of the pod have
led and that was never missed since. A name that leads nowhere makes no difference to the rest of
the visit. If no deployment is found then none is remembered, and a visit that fails changes what
is remembered only if that has been missed. So a process that is told no number of members has
nothing in mind, unless its deployment does not state one. -/
theorem resolves_visit (H : Inquired pod i s past) (v : Visit) :
    ∃ r : Except PoolError (Option Workload),
      (v.hold pod i s).result? = some (r.map fun found? => v.inquiry.answer found?) ∧
      v.Resolves pod i past s (v.hold pod i s).scene (v.hold pod i s).rounds r ∧
      ((v.hold pod i s).result? = some (.ok (v.inquiry.answer none)) →
        (v.hold pod i s).scene.remembered? i = none ∨
          v.inquiry = .replicas ∧ ∃ d, r = .ok (some d) ∧ d.replicas = none) := by
  obtain ⟨r, answered, goes⟩ := Visit.resolves_hold (v := v) H.isVouched
  refine ⟨r, answered, goes, ?_⟩
  intro silent
  have same := Option.some.inj (answered.symm.trans silent)
  rcases r with _ | _ | d
  · contradiction
  · exact .inl (goes.forgotten rfl)
  · obtain ⟨inquiry, unstated⟩ := Inquiry.replicas_of_answer_eq (Except.ok.inj same)
    exact .inr ⟨inquiry, d, rfl, unstated⟩

end Inquired

/-! ## A deployment that does not say -/

/-- A pod with its deployment, which states no number of members. -/
def unstatedStore : MemoryStore :=
  let replicaSet : Workload :=
    { kind := .replicaSet
      metadata :=
        { name := MemoryStore.replicaSetName "web", ns := "ns"
          owners := [MemoryStore.controllerReference .deployment "web"] } }
  let deployment : Workload := { kind := .deployment, metadata := { name := "web", ns := "ns" } }
  ((MemoryStore.putWorkload {} deployment).putWorkload replicaSet).addPod "ns" "web" "web-0"

/-- The process of that pod at its start. -/
def unstatedScene : Scene where
  store := unstatedStore
  clock := ⟨.utc ⟨0⟩⟩
  replicas :=
    [{ participant :=
        { pool := ⟨"ns", "pool", ⟨30, 30⟩, .deployment ⟨"ns", "web-0"⟩⟩, pod := "web-0"
          enabled := ⟨true, true⟩ }
       check := { pool := "pool", identity := ⟨"ns", "web-0"⟩ } }]

/-- **A process that is told nothing may remember something**: the deployment that it has found
states no number of members. -/
theorem remembers_unstated :
    unstatedScene.remembered? 0 = none ∧
      (Visit.hold { inquiry := .replicas } ⟨"ns", "web-0"⟩ 0 unstatedScene).result? =
        some (.ok none) ∧
      (Visit.hold { inquiry := .replicas } ⟨"ns", "web-0"⟩ 0 unstatedScene).scene.remembered? 0 =
        some "web" :=
  ⟨rfl, by with_unfolding_all rfl, by decide +kernel⟩

/-- A look for owners, after the deployment has been removed. -/
def belated : Visit where
  inquiry := .owners
  meanwhile _ store := store.removeWorkload .deployment "ns" "web"

/-- The name that is remembered leads nowhere when the deployment has been removed, and so the
process forgets it. -/
theorem resolves_unstated :
    ∃ s past, Inquired ⟨"ns", "web-0"⟩ 0 s past ∧ s.remembered? 0 = some "web" ∧
      (belated.hold ⟨"ns", "web-0"⟩ 0 s).result? = some (.ok []) ∧
      (belated.hold ⟨"ns", "web-0"⟩ 0 s).scene.remembered? 0 = none := by
  have start : Inquired ⟨"ns", "web-0"⟩ 0 unstatedScene [] := .start rfl
  have before := start.visit { inquiry := .replicas }
  refine ⟨_, _, before, by decide +kernel, by with_unfolding_all rfl, ?_⟩
  obtain ⟨r, -, -, silent⟩ := before.resolves_visit belated
  rcases silent (by with_unfolding_all rfl) with forgotten | ⟨⟨⟩, -⟩
  exact forgotten

end LeasePool
