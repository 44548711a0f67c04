import LeasePool.Proofs.World.Failures

/-!
# What a process finds out about its pool

The deployment of a pod, looked up while some of the calls fail. What a process remembers about
its deployment changes on the way: a name that leads nowhere is forgotten, and one that has been
found is kept. What there is to be found never changes by that, so whoever looks up the deployment
twice finds the same one, however many calls have failed in between.
-/

namespace LeasePool

namespace Topology

/-- The deployment to which the owners of a pod lead. -/
def walked? (store : MemoryStore) (pod : Identity) : Option Workload := do
  let found ← store.workload? .pod pod.ns pod.pod
  let setName ← found.metadata.ownerName? WorkloadKind.replicaSet.name
  let replicaSet ← store.workload? .replicaSet pod.ns setName
  let name ← replicaSet.metadata.ownerName? WorkloadKind.deployment.name
  store.workload? .deployment pod.ns name

/-- The deployment that a process finds that remembers the name `known`. -/
def found? (store : MemoryStore) (known : Option String) : Topology → Option Workload
  | fixed _ => none
  | deployment pod =>
    (known.bind fun name => store.workload? .deployment pod.ns name).or (walked? store pod)

/-- The number of members that the pool should have. -/
def count? (found : Option Workload) : Topology → Option Int32
  | fixed replicas => some replicas
  | deployment _ => found.bind (·.replicas)

end Topology

namespace Scene

/-- The deployment that a process remembers. -/
def remembered? (s : Scene) (i : Nat) : Option String := s.replicas[i]?.bind (·.deployment)

/-- The deployment that a process finds. -/
def found? (s : Scene) (i : Nat) (topology : Topology) : Option Workload :=
  topology.found? s.store (s.remembered? i)

/-- Whatever is written, what there is to be found stays the same. -/
theorem found?_write {s : Scene} {i : Nat} {topology : Topology} {l : Lease} :
    found? { s with store := s.store.write l } i topology = s.found? i topology := by
  cases topology <;> rfl

/-- A process that is told what to remember remembers that, or it remembers nothing. -/
theorem remembered?_modifyReplica (s : Scene) (i : Nat) (name : Option String) :
    (s.modifyReplica i fun r => { r with deployment := name }).remembered? i = name ∨
      (s.modifyReplica i fun r => { r with deployment := name }).remembered? i = none := by
  rw [remembered?, replicas_modifyReplica, if_pos rfl]
  cases s.replicas[i]? with
  | none => exact .inr rfl
  | some r => exact .inl rfl

/-- The clock shows the same time, and a process would still find the same deployment. -/
structure Recalls (i : Nat) (topology : Topology) (s s' : Scene) : Prop where
  now : s'.now? = s.now?
  found : s'.found? i topology = s.found? i topology

variable {i n : Nat} {topology : Topology} {s s' s'' : Scene} {failing : Failures} {α β : Type}

theorem Recalls.refl (s : Scene) : s.Recalls i topology s := ⟨rfl, rfl⟩

theorem Recalls.trans (H : s.Recalls i topology s') (K : s'.Recalls i topology s'') :
    s.Recalls i topology s'' :=
  ⟨K.now.trans H.now, K.found.trans H.found⟩

theorem recalls_write {l : Lease} : s.Recalls i topology { s with store := s.store.write l } :=
  ⟨rfl, found?_write⟩

/-- How a look-up goes that begins with call number `n`: nothing that is stored changes, and it
finds out `a`, unless one of its calls fails. -/
structure Looks (i : Nat) (topology : Topology) (failing : Failures) (n : Nat) (s : Scene) (a : α)
    (o : Course (Except PoolError α)) : Prop where
  recalls : s.Recalls i topology o.scene
  store : o.scene.store = s.store
  result : (o.result? = some (.ok a) ∧ failing.Spare n o.calls) ∨
    ((∃ e, o.result? = some (.error e)) ∧ ¬ failing.Spare n o.calls)

theorem looks_done {a : α} : s.Looks i topology failing n a ⟨s, n, some (.ok a)⟩ :=
  ⟨.refl s, rfl, .inl ⟨rfl, Failures.spare_self⟩⟩

/-- A look-up may begin late, when as much as before can be found. -/
theorem Looks.since {m : Nat} {a : α} {o : Course (Except PoolError α)}
    (H : s'.Looks i topology failing m a o) (spare : failing.Spare n m) (le : n ≤ m)
    (later : m ≤ o.calls) (recalls : s.Recalls i topology s') (store : s'.store = s.store) :
    s.Looks i topology failing n a o := by
  refine ⟨recalls.trans H.recalls, H.store.trans store, ?_⟩
  rw [spare.iff le later]
  exact H.result

/-- A look-up goes on as it should after a call that gets through. -/
theorem looks_getWorkload {kind : WorkloadKind} {ns name : String}
    {f : Option Workload → Attempt α} {a : α} (online : s.store.offline = false)
    (H : s.Looks i topology failing (n + 1) a
      (s.course i failing (n + 1) (f (s.store.workload? kind ns name)).run)) :
    s.Looks i topology failing n a
      (s.course i failing n (Attempt.call (.getWorkload kind ns name) >>= f).run) := by
  cases fails : failing n with
  | some e =>
    rw [course_call_of_failing fails]
    exact ⟨.refl s, rfl, .inr ⟨⟨e, rfl⟩, Failures.not_spare fails (Nat.lt_succ_self n)⟩⟩
  | none =>
    have answer : s.store.answer (.getWorkload kind ns name) =
        (s.store, .ok (s.store.workload? kind ns name)) := by
      simp [MemoryStore.answer, online]
    rw [course_call fails answer]
    exact H.since (Failures.spare_succ fails) (Nat.le_succ n) le_calls (.refl s) rfl

/-- What is made of the result of a look-up. -/
theorem Looks.map {x : Attempt α} {a : α} (g : α → β)
    (H : s.Looks i topology failing n a (s.course i failing n x.run)) :
    s.Looks i topology failing n (g a)
      (s.course i failing n (x >>= fun a => return g a).run) := by
  rcases H.result with ⟨found, spare⟩ | ⟨⟨e, failed⟩, spoilt⟩
  · rw [course_then_of_ok found]
    exact ⟨H.recalls, H.store, .inl ⟨rfl, spare⟩⟩
  · rw [course_then_of_error failed]
    exact ⟨H.recalls, H.store, .inr ⟨⟨e, rfl⟩, spoilt⟩⟩

end Scene

/-! ## Looking up the deployment -/

namespace Topology

open Attempt Scene

variable {i n : Nat} {s : Scene} {failing : Failures} {pod : Identity} {topology : Topology}

/-- To remember a name, or none, makes no difference to a process that would have to walk, if the
name leads to where the walk leads. -/
theorem recalls_remembering (name : Option String)
    (unknown : s.found? i (.deployment pod) = walked? s.store pod)
    (leads : ∀ d, name = some d →
      s.store.workload? .deployment pod.ns d = walked? s.store pod) :
    s.Recalls i (.deployment pod) (s.modifyReplica i fun r => { r with deployment := name }) := by
  refine ⟨rfl, ?_⟩
  rw [unknown, Scene.found?, found?]
  rcases remembered?_modifyReplica s i name with known | known
  · rw [known]
    cases name with
    | none => rfl
    | some d =>
      have here := leads d rfl
      change (s.store.workload? .deployment pod.ns d).or (walked? s.store pod) = _
      rw [here, Option.or_self]
  · rw [known]
    rfl

/-- The way from a pod to its deployment. -/
theorem looks_walk {goal : Option Workload} (online : s.store.offline = false)
    (unknown : s.found? i (.deployment pod) = walked? s.store pod)
    (leads : walked? s.store pod = goal) :
    s.Looks i (.deployment pod) failing n goal (s.course i failing n (walk pod).run) := by
  refine looks_getWorkload online ?_
  cases first : s.store.workload? .pod pod.ns pod.pod with
  | none =>
    obtain rfl : none = goal := by simpa [walked?, first] using leads
    exact looks_done
  | some found =>
    simp only
    cases second : found.metadata.ownerName? WorkloadKind.replicaSet.name with
    | none =>
      obtain rfl : none = goal := by simpa [walked?, first, second] using leads
      exact looks_done
    | some setName =>
      refine looks_getWorkload online ?_
      cases third : s.store.workload? .replicaSet pod.ns setName with
      | none =>
        obtain rfl : none = goal := by simpa [walked?, first, second, third] using leads
        exact looks_done
      | some replicaSet =>
        simp only
        cases fourth : replicaSet.metadata.ownerName? WorkloadKind.deployment.name with
        | none =>
          obtain rfl : none = goal := by
            simpa [walked?, first, second, third, fourth] using leads
          exact looks_done
        | some name =>
          have last : s.store.workload? .deployment pod.ns name = walked? s.store pod := by
            simp [walked?, first, second, third, fourth]
          refine looks_getWorkload online ?_
          rw [last, leads]
          cases goal with
          | none => exact looks_done
          | some owner =>
            -- The name that is remembered from now on leads to where the walk has led.
            have recalls := recalls_remembering (some name) unknown
              (fun d h => by cases h; exact last)
            exact ⟨recalls, rfl, .inl ⟨rfl, Failures.spare_self⟩⟩

/-- **The deployment of a process**, by the name that it remembers or by the way from its pod. -/
theorem looks_deployment? (online : s.store.offline = false) :
    s.Looks i (.deployment pod) failing n (s.found? i (.deployment pod))
      (s.course i failing n (deployment? pod).run) := by
  have asked : s.ask i .knownDeployment = some (s.remembered? i, s) := rfl
  rw [deployment?, course_ask asked]
  cases known : s.remembered? i with
  | none =>
    have unknown : s.found? i (.deployment pod) = walked? s.store pod := by
      rw [Scene.found?, known]
      rfl
    exact looks_walk online unknown unknown.symm
  | some name =>
    refine looks_getWorkload online ?_
    cases there : s.store.workload? .deployment pod.ns name with
    | some d =>
      have found : s.found? i (.deployment pod) = some d := by
        simp [Scene.found?, found?, known, there]
      rw [found]
      exact looks_done
    | none =>
      have unknown : s.found? i (.deployment pod) = walked? s.store pod := by
        simp [Scene.found?, found?, known, there]
      have recalls := recalls_remembering none unknown (fun d h => by contradiction)
      refine Looks.since ?_ Failures.spare_self (Nat.le_refl _) le_calls recalls rfl
      exact looks_walk online (recalls.found.trans unknown) unknown.symm

/-- **How many members the pool should have.** -/
theorem looks_desiredReplicas? (online : s.store.offline = false) :
    s.Looks i topology failing n (topology.count? (s.found? i topology))
      (s.course i failing n topology.desiredReplicas?.run) := by
  cases topology with
  | fixed replicas => exact looks_done
  | deployment pod => exact (looks_deployment? online).map fun found => found.bind (·.replicas)

/-- **Who owns new leases.** -/
theorem looks_owners (online : s.store.offline = false) :
    s.Looks i topology failing n ((s.found? i topology).toList.map ownerOf)
      (s.course i failing n topology.owners.run) := by
  cases topology with
  | fixed replicas => exact looks_done
  | deployment pod => exact (looks_deployment? online).map fun found => found.toList.map ownerOf

end Topology

end LeasePool
