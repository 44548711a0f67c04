import LeasePool.Pool.Participant

/-!
# What operations ask of their process

The operations on leases ask for the time and for the deployment of the process, and what the roles
of a participant do in their cycles concerns the held lease, too. None of them begins or ends a
cycle. This can be seen from the trees of requests alone, whatever the store replies.
-/

namespace LeasePool

/-- A query that concerns the leases of a pool. -/
def Query.IsOfPool : Query → Prop
  | now | knownDeployment | setKnownDeployment _ => True
  | heldLease | announce .. | enter _ | leave _ => False

/-- A query that concerns the work of a role. -/
def Query.IsOfWork : Query → Prop
  | now | knownDeployment | setKnownDeployment _ | heldLease | announce .. => True
  | enter _ | leave _ => False

theorem Query.IsOfPool.isOfWork {q : Query} (H : q.IsOfPool) : q.IsOfWork := by
  cases q with
  | now | knownDeployment | setKnownDeployment => trivial
  | heldLease | announce | enter | leave => exact H.elim

namespace Operation

/-- All that the operation asks is of a kind, whatever its replies and answers. -/
def Asks {α : Type} (kind : Query → Prop) : Operation α → Prop
  | done _ | crash => True
  | call _ next => ∀ reply, (next reply).Asks kind
  | ask q next => kind q ∧ ∀ a, (next a).Asks kind

variable {α β : Type} {kind kind' : Query → Prop}

theorem Asks.mono {x : Operation α} (H : x.Asks kind) (h : ∀ q, kind q → kind' q) :
    x.Asks kind' := by
  induction x with
  | done a => trivial
  | crash => trivial
  | call c next ih => exact fun reply => ih reply (H reply)
  | ask q next ih => exact ⟨h q H.1, fun a => ih a (H.2 a)⟩

/-- What an operation asks is asked before what comes after it. -/
theorem asks_bind {x : Operation α} {f : α → Operation β} (hx : x.Asks kind)
    (hf : ∀ a, (f a).Asks kind) : (x.bind f).Asks kind := by
  induction x with
  | done a => exact hf a
  | crash => trivial
  | call c next ih => exact fun reply => ih reply (hx reply)
  | ask q next ih => exact ⟨hx.1, fun a => ih a (hx.2 a)⟩

end Operation

namespace Attempt

variable {α β : Type} {kind : Query → Prop}

theorem asks_bind {x : Attempt α} {f : α → Attempt β} (hx : x.run.Asks kind)
    (hf : ∀ a, (f a).run.Asks kind) : (x >>= f).run.Asks kind := by
  refine Operation.asks_bind (x := x.run) hx ?_
  intro r
  cases r with
  | ok a => exact hf a
  | error e => trivial

theorem asks_call {c : StoreCall} {f : c.Answer → Attempt β} (hf : ∀ a, (f a).run.Asks kind) :
    (call c >>= f).run.Asks kind := by
  intro reply
  cases reply with
  | ok a => exact hf a
  | error e => trivial

theorem asks_reply {c : StoreCall} {f : c.Reply → Attempt β}
    (hf : ∀ reply, (f reply).run.Asks kind) : (reply c >>= f).run.Asks kind := hf

theorem asks_ask {q : Query} {f : q.Answer → Attempt β} (hq : kind q)
    (hf : ∀ a, (f a).run.Asks kind) : (ask q >>= f).run.Asks kind := ⟨hq, hf⟩

theorem asks_orCrash {o : Option α} {f : α → Attempt β} (hf : ∀ a, (f a).run.Asks kind) :
    (orCrash o >>= f).run.Asks kind := by
  cases o with
  | none => trivial
  | some a => exact hf a

theorem asks_outcome {x : Attempt α} (hx : x.run.Asks kind) : (outcome x).run.Asks kind :=
  Operation.asks_bind hx fun _ => trivial

end Attempt

/-! ## Operations on leases -/

namespace Topology

open Attempt

theorem asks_walk {pod : Identity} : (walk pod).run.Asks Query.IsOfPool := by
  refine asks_call fun found? => ?_
  cases found? with
  | none => trivial
  | some found =>
    simp only
    split
    · trivial
    · refine asks_call fun replicaSet? => ?_
      cases replicaSet? with
      | none => trivial
      | some replicaSet =>
        simp only
        split
        · trivial
        · refine asks_call fun owner? => ?_
          cases owner? with
          | none => trivial
          | some owner => exact asks_ask trivial fun _ => trivial

theorem asks_deployment? {pod : Identity} : (deployment? pod).run.Asks Query.IsOfPool := by
  refine asks_ask trivial fun known? => ?_
  cases known? with
  | none => exact asks_walk
  | some name =>
    refine asks_call fun known? => ?_
    cases known? with
    | none => exact asks_ask trivial fun _ => asks_walk
    | some known => trivial

theorem asks_desiredReplicas? {topology : Topology} :
    topology.desiredReplicas?.run.Asks Query.IsOfPool := by
  cases topology with
  | fixed replicas => trivial
  | deployment pod => exact asks_bind asks_deployment? fun _ => trivial

theorem asks_owners {topology : Topology} : topology.owners.run.Asks Query.IsOfPool := by
  cases topology with
  | fixed replicas => trivial
  | deployment pod => exact asks_bind asks_deployment? fun _ => trivial

end Topology

namespace Pool

open Attempt

variable {p : Pool} {holder name : String}

theorem asks_correct {l : Lease} {labels : Labels} {duration : Int32} :
    (p.correct l labels duration).run.Asks Query.IsOfPool := by
  unfold correct
  split
  · trivial
  · refine asks_reply fun reply => ?_
    split
    · trivial
    · split
      · exact asks_call fun _ => trivial
      · trivial

theorem asks_ensure {role : Role} : (p.ensure role name).run.Asks Query.IsOfPool := by
  refine asks_call fun found? => ?_
  cases found? with
  | some found => exact asks_correct
  | none =>
    refine asks_bind Topology.asks_owners fun owners => asks_reply fun reply => ?_
    split
    · trivial
    · split
      · refine asks_call fun found? => ?_
        cases found? <;> trivial
      · trivial

theorem asks_renew {l : Lease} : (renew l holder).run.Asks Query.IsOfPool := by
  refine asks_ask trivial fun now => asks_orCrash fun claimed => asks_reply fun reply => ?_
  split
  · trivial
  · split <;> trivial

theorem asks_renewByName : (p.renewByName name holder).run.Asks Query.IsOfPool := by
  refine asks_call fun found? => ?_
  cases found? with
  | none => trivial
  | some l =>
    refine asks_ask trivial fun now => asks_orCrash fun free => ?_
    cases free with
    | false => trivial
    | true => exact asks_renew

theorem asks_acquireLeader : (p.acquireLeader holder name).run.Asks Query.IsOfPool := by
  have claims : ∀ l, (do
      let now ← ask .now
      if ← available l holder now then
        let renewed ← renew l holder
        return renewed.isSome
      else return false : Attempt Bool).run.Asks Query.IsOfPool := by
    intro l
    refine asks_ask trivial fun now => asks_orCrash fun free => ?_
    cases free with
    | false => trivial
    | true => exact asks_bind asks_renew fun _ => trivial
  refine asks_call fun found? => ?_
  cases found? with
  | some found => exact claims found
  | none => exact asks_bind asks_ensure claims

theorem asks_renewFirst {ls : List Lease} : (renewFirst holder ls).run.Asks Query.IsOfPool := by
  induction ls with
  | nil => trivial
  | cons l ls ih =>
    refine asks_bind asks_renew fun renewed? => ?_
    cases renewed? with
    | none => exact ih
    | some renewed => trivial

theorem asks_claimFirst {now : Instant} {ls : List Lease} :
    (claimFirst holder now ls).run.Asks Query.IsOfPool := by
  induction ls with
  | nil => trivial
  | cons l ls ih =>
    refine asks_orCrash fun free => ?_
    cases free with
    | false => exact ih
    | true =>
      refine asks_bind asks_renew fun claimed? => ?_
      cases claimed? with
      | none => exact ih
      | some claimed => trivial

theorem asks_acquireMember {pool : String} :
    (p.acquireMember holder pool).run.Asks Query.IsOfPool := by
  refine asks_call fun ls => ?_
  split
  · trivial
  · refine asks_bind asks_renewFirst fun renewed? => ?_
    cases renewed? with
    | none => exact asks_ask trivial fun now => asks_claimFirst
    | some renewed => trivial

theorem asks_acquireMemberHinted {pool known : String} :
    (p.acquireMemberHinted holder pool known).run.Asks Query.IsOfPool := by
  refine asks_bind asks_renewByName fun renewed? => ?_
  cases renewed? with
  | none => exact asks_acquireMember
  | some renewed => trivial

theorem asks_release : (p.release holder name).run.Asks Query.IsOfPool := by
  refine asks_call fun found? => ?_
  cases found? with
  | none => trivial
  | some l =>
    simp only
    split
    · trivial
    · refine asks_reply fun reply => ?_
      split
      · trivial
      · split
        · trivial
        · split <;> trivial

end Pool

/-! ## Roles -/

namespace Participant

open Attempt

variable {p : Participant}

theorem asks_ensureMembers {ordinals : List Nat} :
    (p.ensureMembers ordinals).run.Asks Query.IsOfPool := by
  induction ordinals with
  | nil => trivial
  | cons ordinal ordinals ih => exact asks_bind (asks_outcome Pool.asks_ensure) fun _ => ih

theorem asks_reconcile : p.reconcile.run.Asks Query.IsOfPool := by
  refine asks_bind Pool.asks_acquireLeader fun leads => ?_
  cases leads with
  | false => trivial
  | true =>
    refine asks_bind Topology.asks_desiredReplicas? fun replicas? => ?_
    cases replicas? with
    | none => trivial
    | some replicas => exact asks_bind asks_ensureMembers fun _ => trivial

theorem asks_acquire : p.acquire.run.Asks Query.IsOfWork := by
  refine asks_ask trivial fun held? => ?_
  cases held? with
  | some held =>
    refine asks_bind (Pool.asks_renewByName.mono fun _ => Query.IsOfPool.isOfWork) ?_
    intro renewed?
    cases renewed? with
    | none => exact asks_ask trivial fun _ => trivial
    | some renewed => trivial
  | none =>
    refine asks_bind (Pool.asks_acquireMember.mono fun _ => Query.IsOfPool.isOfWork) ?_
    intro acquired?
    cases acquired? with
    | none => trivial
    | some acquired => exact asks_ask trivial fun _ => trivial

/-- **What roles ask in their cycles** concerns neither the beginning nor the end of a cycle. -/
theorem asks_work {role : Role} : (p.work role).run.Asks Query.IsOfWork := by
  cases role with
  | leader => exact asks_reconcile.mono fun _ => Query.IsOfPool.isOfWork
  | member => exact asks_acquire

/-- Nor does what they ask to give up what they hold. -/
theorem asks_release {role : Role} : (p.release role).Asks Query.IsOfWork := by
  have common : ∀ {name}, (p.pool.release p.pod name).run.Asks Query.IsOfWork :=
    Pool.asks_release.mono fun _ => Query.IsOfPool.isOfWork
  cases role with
  | leader =>
    change p.releaseLeader.Asks Query.IsOfWork
    unfold releaseLeader
    split
    · refine Operation.asks_bind (x := (p.pool.release p.pod p.leaderLease).run) common ?_
      exact fun _ => trivial
    · trivial
  | member =>
    refine ⟨trivial, fun held? => ?_⟩
    cases held? with
    | none => trivial
    | some held =>
      refine Operation.asks_bind (x := (p.pool.release p.pod held).run) common fun released => ?_
      split
      · exact ⟨trivial, fun _ => trivial⟩
      · trivial

end Participant

end LeasePool
