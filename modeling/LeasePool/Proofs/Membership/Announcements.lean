import LeasePool.Proofs.Pool.Requests

/-!
# What operations announce

The operations of a member controller announce one event at most, at the very end, and it fits what
the process holds: a lease is acquired when none is held, and the one that is held is lost in a
cycle, or given up in a release. This can be seen from the trees of requests alone, whatever the
store replies.
-/

namespace LeasePool

/-- Whether an event fits what a process holds: it acquires a lease when it holds none, and the
lease that it holds comes to an end of a kind. -/
def EventKind.Fits (kind ending : EventKind) (held : Option String) (lease : String) : Prop :=
  if kind = .acquired then held = none else kind = ending ∧ held = some lease

namespace Operation

/-- The operation announces nothing, whatever its replies and answers. -/
def IsSilent {α : Type} : Operation α → Prop
  | done _ | crash => True
  | call _ next => ∀ reply, (next reply).IsSilent
  | ask (.announce _ _) _ => False
  | ask _ next => ∀ a, (next a).IsSilent

/-- The operation of a process that holds a lease, or none, announces one event at most, and the
event fits. For the lease that is held to come to an end there is one kind of event. -/
def Tells {α : Type} (ending : EventKind) (held : Option String) : Operation α → Prop
  | done _ | crash => True
  | call _ next => ∀ reply, (next reply).Tells ending held
  | ask (.announce kind lease) next => kind.Fits ending held lease ∧ (next ()).IsSilent
  | ask .heldLease next => (next held).Tells ending held
  | ask _ next => ∀ a, (next a).Tells ending held

variable {α β : Type} {ending : EventKind} {held : Option String}

/-- Who announces nothing announces nothing that does not fit. -/
theorem IsSilent.tells {x : Operation α} (H : x.IsSilent) : x.Tells ending held := by
  induction x with
  | done a => trivial
  | crash => trivial
  | call c next ih => exact fun reply => ih reply (H reply)
  | ask q next ih =>
    cases q with
    | announce kind lease => exact H.elim
    | heldLease => exact ih held (H held)
    | _ => exact fun a => ih a (H a)

/-- Operations on leases are none of the listeners' business. -/
theorem Asks.isSilent {x : Operation α} (H : x.Asks Query.IsOfPool) : x.IsSilent := by
  induction x with
  | done a => trivial
  | crash => trivial
  | call c next ih => exact fun reply => ih reply (H reply)
  | ask q next ih =>
    obtain ⟨kind, rest⟩ := H
    cases q with
    | announce => exact kind.elim
    | _ => exact fun a => ih a (rest a)

theorem isSilent_bind {x : Operation α} {f : α → Operation β} (hx : x.IsSilent)
    (hf : ∀ a, (f a).IsSilent) : (x.bind f).IsSilent := by
  induction x with
  | done a => exact hf a
  | crash => trivial
  | call c next ih => exact fun reply => ih reply (hx reply)
  | ask q next ih =>
    cases q with
    | announce kind lease => exact hx.elim
    | _ => exact fun a => ih a (hx a)

/-- What an operation has left to announce may come after it. -/
theorem tells_bind_of_isSilent {x : Operation α} {f : α → Operation β} (hx : x.IsSilent)
    (hf : ∀ a, (f a).Tells ending held) : (x.bind f).Tells ending held := by
  induction x with
  | done a => exact hf a
  | crash => trivial
  | call c next ih => exact fun reply => ih reply (hx reply)
  | ask q next ih =>
    cases q with
    | announce kind lease => exact hx.elim
    | heldLease => exact ih held (hx held)
    | _ => exact fun a => ih a (hx a)

/-- What comes after an operation may be silent. -/
theorem Tells.bind {x : Operation α} {f : α → Operation β} (hx : x.Tells ending held)
    (hf : ∀ a, (f a).IsSilent) : (x.bind f).Tells ending held := by
  induction x with
  | done a => exact (hf a).tells
  | crash => trivial
  | call c next ih => exact fun reply => ih reply (hx reply)
  | ask q next ih =>
    cases q with
    | announce kind lease => exact ⟨hx.1, isSilent_bind hx.2 hf⟩
    | heldLease => exact ih held hx
    | _ => exact fun a => ih a (hx a)

end Operation

namespace Attempt

variable {α β : Type} {ending : EventKind} {held : Option String}

theorem tells_bind_of_isSilent {x : Attempt α} {f : α → Attempt β} (hx : x.run.IsSilent)
    (hf : ∀ a, (f a).run.Tells ending held) : (x >>= f).run.Tells ending held := by
  refine Operation.tells_bind_of_isSilent (x := x.run) hx ?_
  intro r
  cases r with
  | ok a => exact hf a
  | error e => trivial

theorem tells_heldLease {f : Option String → Attempt β} (hf : (f held).run.Tells ending held) :
    (ask .heldLease >>= f).run.Tells ending held := hf

end Attempt

namespace Participant

open Attempt

variable {p : Participant} {held : Option String}

/-- **To acquire a lease**: an event is announced at the very end, if at all, of what has become of
the lease that was held. -/
theorem tells_acquire : p.acquire.run.Tells .lost held := by
  refine tells_heldLease ?_
  cases held with
  | some name =>
    refine tells_bind_of_isSilent Pool.asks_renewByName.isSilent fun renewed? => ?_
    cases renewed? with
    | none => exact ⟨⟨rfl, rfl⟩, trivial⟩
    | some renewed => trivial
  | none =>
    refine tells_bind_of_isSilent Pool.asks_acquireMember.isSilent fun acquired? => ?_
    cases acquired? with
    | none => trivial
    | some acquired => exact ⟨rfl, trivial⟩

theorem tells_cycle : (p.cycle .member).Tells .lost held := by
  unfold cycle
  split
  · intro entered
    cases entered with
    | false => trivial
    | true => exact tells_acquire.bind fun _ _ => trivial
  · trivial

theorem tells_releaseMember : p.releaseMember.Tells .released held := by
  cases held with
  | none => trivial
  | some name =>
    refine Operation.tells_bind_of_isSilent (x := (p.pool.release p.pod name).run)
      Pool.asks_release.isSilent fun r => ?_
    split
    · exact ⟨⟨rfl, rfl⟩, trivial⟩
    · trivial

end Participant

end LeasePool
