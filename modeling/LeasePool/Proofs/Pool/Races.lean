import LeasePool.Proofs.Pool.Tending
import LeasePool.Proofs.Store.Twins
import LeasePool.Proofs.World.Conversations

/-!
# Lost races

Replicas race for leases, and most of the time somebody loses. To lose is an answer and never an
error, whatever is in the way at whichever call: competing writes, leases that come and go, and
writes that fail for any reason. One call claims one lease at most, and says so exactly if it did.
-/

namespace LeasePool

namespace Round

/-- Whether the call is one that writes no lease. -/
def isRead (r : Round) : Bool := r.call.written?.isNone

/-- The error that the call was replied to with. -/
def error? (r : Round) : Option PoolError :=
  match r.service.reply with
  | .ok _ => none
  | .error e => some e

theorem error?_eq_some_iff {r : Round} {e : PoolError} :
    r.error? = some e ↔ r.service.reply = .error e := by
  rw [error?]
  split <;> simp [*]

/-- Reads are no races. A lease that was read, or the lack of it, is what was stored when the store
replied. -/
structure IsFair (r : Round) : Prop where
  reads : r.isRead = true → ∀ e, r.error? = some e → e.isConflict = false
  shows : ∀ ns name (x : Service (.getLease ns name)), r = ⟨_, x⟩ → ∀ l?, x.reply = .ok l? →
    x.decided.store.lease? ns name = l?

end Round

/-- All replies are fair. Which writes fail, with which errors, and what others do is anybody's
guess. -/
def Counterpart.IsFair (w : Counterpart) : Prop :=
  ∀ n s c x, w n s c = some x → Round.IsFair ⟨c, x⟩

/-- A result that is no lost race. -/
def IsSettled {α : Type} (o : Option (Except PoolError α)) : Prop :=
  ∀ e, o = some (.error e) → e.isConflict = false

/-! ## Attempts that settle -/

/-- Whatever the replies to an attempt, no lost race is reported. -/
def Operation.Settles {α : Type} (x : Operation (Except PoolError α)) : Prop :=
  x.Guarantees Round.IsFair fun _ o => IsSettled o

section

variable {α β : Type} {c : StoreCall} {x : Attempt α}

theorem settled_none : IsSettled (none : Option (Except PoolError α)) := nofun

theorem settles_pure {a : α} : (pure a : Attempt α).run.Settles := nofun

theorem settles_throw {e : PoolError} (h : e.isConflict = false) :
    (throw e : Attempt α).run.Settles := by
  rintro _ ⟨⟩
  exact h

theorem settles_then {f : α → Attempt β} (hx : x.run.Settles) (hf : ∀ a, (f a).run.Settles) :
    (x >>= f).run.Settles := by
  refine Attempt.guarantees_then (hx.mono ?_)
  rintro rounds (_ | e | a) settled
  · exact settled_none
  · rintro _ ⟨⟩
    exact settled e rfl
  · exact hf a

theorem settles_reply {f : c.Reply → Attempt β} (hf : ∀ reply, (f reply).run.Settles) :
    (Attempt.reply c >>= f).run.Settles :=
  Attempt.guarantees_reply settled_none fun x _ => hf x.reply

theorem settles_ask {q : Query} {f : q.Answer → Attempt β} (hf : ∀ a, (f a).run.Settles) :
    (Attempt.ask q >>= f).run.Settles :=
  Attempt.guarantees_ask settled_none hf

/-- Reads settle, because they are fair. -/
theorem settles_read {f : c.Answer → Attempt β} (read : c.written? = none)
    (hf : ∀ a, (f a).run.Settles) : (Attempt.call c >>= f).run.Settles := by
  refine Attempt.guarantees_call settled_none fun x fair => ?_
  rcases x with ⟨e | a, decided, after⟩
  · rintro _ ⟨⟩
    exact fair.reads (by rw [Round.isRead, read]; rfl) e rfl
  · exact hf a

end

namespace Topology

open Attempt

theorem settles_walk {pod : Identity} : (walk pod).run.Settles := by
  refine settles_read rfl fun found? => ?_
  cases found? with
  | none => exact settles_pure
  | some found =>
    simp only
    split
    · exact settles_pure
    · refine settles_read rfl fun set? => ?_
      cases set? with
      | none => exact settles_pure
      | some set =>
        simp only
        split
        · exact settles_pure
        · refine settles_read rfl fun owner? => ?_
          cases owner? with
          | none => exact settles_pure
          | some owner => exact settles_ask fun _ => settles_pure

theorem settles_deployment? {pod : Identity} : (deployment? pod).run.Settles := by
  refine settles_ask fun known? => ?_
  cases known? with
  | none => exact settles_walk
  | some name =>
    refine settles_read rfl fun found? => ?_
    cases found? with
    | some found => exact settles_pure
    | none => exact settles_ask fun _ => settles_walk

theorem settles_desiredReplicas? {t : Topology} : t.desiredReplicas?.run.Settles := by
  cases t with
  | fixed replicas => exact settles_pure
  | deployment pod => exact settles_then settles_deployment? fun _ => settles_pure

theorem settles_owners {t : Topology} : t.owners.run.Settles := by
  cases t with
  | fixed replicas => exact settles_pure
  | deployment pod => exact settles_then settles_deployment? fun _ => settles_pure

end Topology

namespace Pool

open Attempt

variable {p : Pool} {role : Role} {name holder : String}

theorem settles_correct {l : Lease} {labels : Labels} {duration : Int32} :
    (p.correct l labels duration).run.Settles := by
  unfold correct
  split
  · exact settles_pure
  · refine settles_reply fun reply => ?_
    cases reply with
    | ok written => exact settles_pure
    | error e =>
      simp only
      split
      · exact settles_read rfl fun _ => settles_pure
      · rename_i other
        exact settles_throw (by simpa using other)

/-- **Making sure of a lease** settles. -/
theorem settles_ensure : (p.ensure role name).run.Settles := by
  refine settles_read rfl fun found? => ?_
  cases found? with
  | some found => exact settles_correct
  | none =>
    refine settles_then Topology.settles_owners fun owners => settles_reply fun reply => ?_
    cases reply with
    | ok created => exact settles_pure
    | error e =>
      simp only
      split
      · refine settles_read rfl fun found? => ?_
        cases found? with
        | some found => exact settles_pure
        | none => exact settles_throw rfl
      · rename_i other
        exact settles_throw (by simpa using other)

/-! ## Claims -/

/-- How an attempt to claim a lease goes: all that it writes are claims, one of them is stored at
most, and the result is the lease that was stored. An error is the reply to the last call; it is
no lost race, and if it is the absence of an object, that call was a read. -/
structure Claims (holder : String) (rounds : List Round)
    (o : Option (Except PoolError (Option Lease))) : Prop where
  writes : ∀ r ∈ rounds, r.isRead = false →
    ∃ (l : Lease) (now : Instant), r.call = .updateLease (l.edit (.claim holder (.utc now)))
  stored : rounds.filterMap Round.stored? = match o with
    | some (.ok l?) => l?.toList
    | _ => []
  error : ∀ e, o = some (.error e) → e.isConflict = false ∧
    ∃ r, rounds.getLast? = some r ∧ r.error? = some e ∧ (e.isNotFound = true → r.isRead = true)

/-- Nothing has been claimed. -/
theorem claims_nil : Claims holder [] (some (.ok none)) := ⟨by simp, rfl, nofun⟩

theorem claims_stuck : Claims holder [] none := ⟨by simp, rfl, nofun⟩

/-- An attempt may begin when another one has claimed nothing. -/
theorem Claims.append {before rounds : List Round}
    {o : Option (Except PoolError (Option Lease))} (B : Claims holder before (some (.ok none)))
    (C : Claims holder rounds o) : Claims holder (before ++ rounds) o where
  writes r hr := (List.mem_append.1 hr).elim (B.writes r) (C.writes r)
  stored := by
    rw [List.filterMap_append, B.stored, C.stored]
    rfl
  error e he := by
    obtain ⟨settled, r, last, rest⟩ := C.error e he
    exact ⟨settled, r, by rw [List.getLast?_append, last]; rfl, rest⟩

/-- What was read claims nothing. -/
theorem claims_read {r : Round} (read : r.isRead = true) :
    Claims holder [r] (some (.ok none)) where
  writes r' hr other := by
    obtain rfl := List.mem_singleton.1 hr
    rw [read] at other
    contradiction
  stored := by
    have nothing : r.stored? = none :=
      MemoryStore.stored?_eq_none (Option.isNone_iff_eq_none.1 read)
    simp [nothing]
  error := nofun

/-- An attempt that begins with a read that fails. -/
theorem claims_read_of_error {r : Round} {e : PoolError} (fair : r.IsFair) (read : r.isRead = true)
    (fails : r.error? = some e) : Claims holder [r] (some (.error e)) := by
  have C : Claims holder [r] (some (.ok none)) := claims_read read
  refine ⟨C.writes, C.stored, ?_⟩
  rintro _ ⟨⟩
  exact ⟨fair.reads read e fails, r, rfl, fails, fun _ => read⟩

/-- **A renewal** is one write, if it comes to that: it is stored, or it has lost a race, or it has
failed for some other reason. -/
theorem guarantees_renew {l : Lease} {P : Round → Prop}
    {Q : List Round → Option (Except PoolError (Option Lease)) → Prop} (stuck : Q [] none)
    (H : ∀ (now : Instant) (x : Service (.updateLease (l.edit (.claim holder (.utc now))))),
      (∀ written, x.reply = .ok written → Q [⟨_, x⟩] (some (.ok (some written)))) ∧
      ∀ e, x.reply = .error e → Q [⟨_, x⟩] (some (.ok none)) ∧
        (e.isConflict = false → e.isNotFound = false → Q [⟨_, x⟩] (some (.error e)))) :
    (renew l holder).run.Guarantees P Q := by
  refine guarantees_ask stuck fun now => guarantees_orCrash stuck fun claimed counted => ?_
  obtain ⟨-, rfl⟩ := Lease.claimed?_eq_some_iff.1 counted
  refine guarantees_reply stuck fun x _ => ?_
  obtain ⟨stored, failed⟩ := H now x
  rcases x with ⟨e | written, decided, after⟩
  · simp only
    split
    · exact (failed e rfl).1
    · rename_i other
      simp only [Bool.or_eq_true, not_or, Bool.not_eq_true] at other
      exact (failed e rfl).2 other.1 other.2
  · exact stored written rfl

theorem claims_renew {l : Lease} :
    (renew l holder).run.Guarantees Round.IsFair (Claims holder) := by
  refine guarantees_renew claims_stuck fun now x => ?_
  have write : ∀ r ∈ [Round.mk _ x], r.isRead = false →
      ∃ (l : Lease) (now : Instant), r.call = .updateLease (l.edit (.claim holder (.utc now))) := by
    intro r hr _
    obtain rfl := List.mem_singleton.1 hr
    exact ⟨l, now, rfl⟩
  rcases x with ⟨reply, decided, after⟩
  refine ⟨?_, ?_⟩
  · rintro written rfl
    exact ⟨write, rfl, nofun⟩
  · rintro e rfl
    refine ⟨⟨write, rfl, nofun⟩, fun noConflict found => ⟨write, rfl, ?_⟩⟩
    rintro _ ⟨⟩
    exact ⟨noConflict, _, rfl, rfl, fun missing => by simp [found] at missing⟩

/-- An attempt that begins with a read. -/
theorem claims_then_read {c : StoreCall} {f : c.Answer → Attempt (Option Lease)}
    (read : c.written? = none)
    (H : ∀ a, (f a).run.Guarantees Round.IsFair (Claims holder)) :
    (call c >>= f).run.Guarantees Round.IsFair (Claims holder) := by
  refine guarantees_call claims_stuck fun x fair => ?_
  have isRead : (Round.mk c x).isRead = true := by rw [Round.isRead, read]; rfl
  rcases x with ⟨e | a, decided, after⟩
  · exact claims_read_of_error fair isRead rfl
  · exact (H a).mono fun rounds o C => (claims_read isRead).append C

/-- Two attempts, one after the other: the second is made if the first one claims nothing. -/
theorem claims_orElse {x : Attempt (Option Lease)} {f : Option Lease → Attempt (Option Lease)}
    (hx : x.run.Guarantees Round.IsFair (Claims holder))
    (some : ∀ l, f (some l) = return some l)
    (none : (f none).run.Guarantees Round.IsFair (Claims holder)) :
    (x >>= f).run.Guarantees Round.IsFair (Claims holder) := by
  refine guarantees_then (hx.mono ?_)
  rintro rounds (_ | e | _ | l) C
  · exact C
  · exact ⟨C.writes, C.stored, fun e' he' => C.error e' (by cases he'; rfl)⟩
  · exact none.mono fun more o D => C.append D
  · simp only [some]
    change Claims holder (rounds ++ []) _
    rwa [List.append_nil]

theorem claims_renewByName :
    (p.renewByName name holder).run.Guarantees Round.IsFair (Claims holder) := by
  refine claims_then_read rfl fun found? => ?_
  cases found? with
  | none => exact claims_nil
  | some l =>
    refine guarantees_ask claims_stuck fun now => guarantees_orCrash claims_stuck fun free _ => ?_
    split
    · exact claims_renew
    · exact claims_nil

/-- **As many leases as there may be**, one of them is renewed at most. -/
theorem claims_renewFirst {ls : List Lease} :
    (renewFirst holder ls).run.Guarantees Round.IsFair (Claims holder) := by
  induction ls with
  | nil => exact claims_nil
  | cons l ls ih => exact claims_orElse claims_renew (fun _ => rfl) ih

/-- **As many leases as there may be**, one of them is claimed at most. -/
theorem claims_claimFirst {now : Instant} {ls : List Lease} :
    (claimFirst holder now ls).run.Guarantees Round.IsFair (Claims holder) := by
  induction ls with
  | nil => exact claims_nil
  | cons l ls ih =>
    refine guarantees_orCrash claims_stuck fun free _ => ?_
    split
    · exact claims_orElse claims_renew (fun _ => rfl) ih
    · exact ih

theorem claims_acquireMember {pool : String} :
    (p.acquireMember holder pool).run.Guarantees Round.IsFair (Claims holder) := by
  refine claims_then_read rfl fun ls => ?_
  generalize byName ls = sorted
  cases sorted with
  | nil => exact claims_nil
  | cons first rest =>
    refine claims_orElse claims_renewFirst (fun _ => rfl) ?_
    exact guarantees_ask claims_stuck fun now => claims_claimFirst

theorem claims_acquireMemberHinted {pool known : String} :
    (p.acquireMemberHinted holder pool known).run.Guarantees Round.IsFair (Claims holder) :=
  claims_orElse claims_renewByName (fun _ => rfl) claims_acquireMember

/-! ## Elections -/

/-- How a claim on a lease that was found goes: there is one renewal at most, the claim succeeds
exactly if the renewal is stored, and an error is neither a lost race nor the absence of the
lease. -/
structure Campaigns (l : Lease) (holder : String) (rounds : List Round)
    (o : Option (Except PoolError Bool)) : Prop where
  renewal : rounds = [] ∨
    ∃ (now : Instant) (x : _), rounds = [⟨.updateLease (l.edit (.claim holder (.utc now))), x⟩]
  won : o = some (.ok true) ↔ ∃ r ∈ rounds, r.stored?.isSome = true
  error : ∀ e, o = some (.error e) → e.isConflict = false ∧ e.isNotFound = false

/-- No renewal comes of a claim on a lease that is not available. -/
theorem campaigns_nil {l : Lease} : Campaigns l holder [] (some (.ok false)) :=
  ⟨.inl rfl, by simp, nofun⟩

theorem campaigns_stuck {l : Lease} : Campaigns l holder [] none := ⟨.inl rfl, by simp, nofun⟩

theorem campaigns_contend {l : Lease} :
    (contend l holder).run.Guarantees Round.IsFair (Campaigns l holder) := by
  refine guarantees_ask campaigns_stuck fun now => ?_
  refine guarantees_orCrash campaigns_stuck fun free _ => ?_
  split
  · refine guarantees_then (guarantees_renew campaigns_stuck fun now x => ?_)
    rcases x with ⟨reply, decided, after⟩
    refine ⟨?_, ?_⟩
    · rintro written rfl
      refine ⟨.inr ⟨now, _, rfl⟩, by simp [Round.stored?, StoreCall.stored?], ?_⟩
      rintro e ⟨⟩
    · rintro e rfl
      have lost : ¬ ∃ r ∈ [Round.mk (.updateLease (l.edit (.claim holder (.utc now))))
          ⟨.error e, decided, after⟩], r.stored?.isSome = true := by
        simp [Round.stored?, StoreCall.stored?]
      refine ⟨⟨.inr ⟨now, _, rfl⟩, iff_of_false (by simp) lost, ?_⟩, fun noConflict found => ?_⟩
      · rintro e' ⟨⟩
      · refine ⟨.inr ⟨now, _, rfl⟩, iff_of_false (by simp) lost, ?_⟩
        rintro _ ⟨⟩
        exact ⟨noConflict, found⟩
  · exact campaigns_nil

/-- Finds the leader lease, or makes sure that there is one. -/
def findLeader (p : Pool) (name : String) : Attempt Lease := do
  match ← call (.getLease p.ns name) with
  | some lease => return lease
  | none => p.ensure .leader name

/-- The leader lease is found first, and claimed then. -/
theorem acquireLeader_eq_findLeader :
    p.acquireLeader holder name = p.findLeader name >>= fun lease => contend lease holder := by
  rw [acquireLeader_eq, findLeader, bind_assoc]
  congr 1
  funext found
  cases found with
  | none => rfl
  | some lease => rw [pure_bind]

/-- How an election goes, given how the lease was found: if there is a lease, there is a claim on
it, and otherwise there is none. -/
structure Elects (holder : String) (found : Conversation (Except PoolError Lease))
    (k : Conversation (Except PoolError Bool)) : Prop where
  settled : IsSettled k.result?
  unfound : (∀ l, found.result? ≠ some (.ok l)) →
    k.rounds = found.rounds ∧ k.result? ≠ some (.ok true)
  claimed : ∀ l, found.result? = some (.ok l) →
    ∃ more, k.rounds = found.rounds ++ more ∧ Campaigns l holder more k.result?

theorem elects_acquireLeader {w : Counterpart} (fair : w.IsFair) {i n : Nat} {s : Scene} :
    Elects holder (s.converse i w n (p.findLeader name).run)
      (s.converse i w n (p.acquireLeader holder name).run) := by
  have settles : (p.findLeader name).run.Settles := by
    refine settles_read rfl fun found? => ?_
    cases found? with
    | none => exact settles_ensure
    | some lease => exact settles_pure
  have settled := settles.ends fair i n s
  rw [acquireLeader_eq_findLeader, Scene.converse_then]
  rcases hk : s.converse i w n (p.findLeader name).run with ⟨s', rounds, _ | e | l⟩ <;>
    rw [hk] at settled
  · refine ⟨settled_none, fun _ => ⟨rfl, by simp⟩, ?_⟩
    rintro l ⟨⟩
  · refine ⟨?_, fun _ => ⟨rfl, by simp⟩, ?_⟩
    · rintro _ ⟨⟩
      exact settled e rfl
    · rintro l ⟨⟩
  · have campaigns : Campaigns l holder _ _ :=
      campaigns_contend.ends fair i (n + rounds.length) s'
    refine ⟨fun e he => (campaigns.error e he).1, fun none => absurd rfl (none l), ?_⟩
    rintro _ ⟨⟩
    exact ⟨_, rfl, campaigns⟩

/-! ## Releases -/

/-- How a release goes: all that it writes is the release of a lease that it read as held by its
caller. It has no effect to report unless the lease was missing or not the caller's when it was
read, or the release was stored, or there was no such lease to the store. -/
structure Frees (p : Pool) (holder name : String) (rounds : List Round)
    (o : Option (Except PoolError Bool)) : Prop where
  writes : ∀ r ∈ rounds, r.isRead = false →
    ∃ l : Lease, r.call = .updateLease (l.edit .release) ∧ l.isHeldBy holder = true ∧
      ∃ x : Service (.getLease p.ns name), ⟨_, x⟩ ∈ rounds ∧ x.reply = .ok (some l)
  error : ∀ e, o = some (.error e) → e.isConflict = false ∧
    ∃ r, rounds.getLast? = some r ∧ r.error? = some e ∧ (e.isNotFound = true → r.isRead = true)
  freed : o = some (.ok true) →
    (∃ r ∈ rounds, ∀ l, r.service.decided.store.lease? p.ns name = some l →
      l.isHeldBy holder = false) ∨
    ∃ r ∈ rounds, r.isRead = false ∧
      (r.stored?.isSome = true ∨ ∃ e, r.error? = some e ∧ e.isNotFound = true)

section

variable {x : Service (.getLease p.ns name)} {l : Lease}
  {y : Service (.updateLease (l.edit .release))} {o : Option (Except PoolError Bool)}

/-- A release that comes to no write. -/
theorem frees_of_read (fair : (Round.mk _ x).IsFair)
    (error : ∀ e, o = some (.error e) → x.reply = .error e)
    (freed : o = some (.ok true) → ∀ l, x.decided.store.lease? p.ns name = some l →
      l.isHeldBy holder = false) : p.Frees holder name [⟨_, x⟩] o where
  writes r hr other := by
    obtain rfl := List.mem_singleton.1 hr
    contradiction
  error e he := by
    have fails : (Round.mk _ x).error? = some e := Round.error?_eq_some_iff.2 (error e he)
    exact ⟨fair.reads rfl e fails, _, rfl, fails, fun _ => rfl⟩
  freed he := .inl ⟨_, List.mem_cons_self, freed he⟩

/-- A release that comes to a write. -/
theorem frees_of_write (found : x.reply = .ok (some l)) (held : l.isHeldBy holder = true)
    (settled : IsSettled o)
    (error : ∀ e, o = some (.error e) → y.reply = .error e ∧ e.isNotFound = false)
    (freed : o = some (.ok true) →
      (∃ written, y.reply = .ok written) ∨ ∃ e, y.reply = .error e ∧ e.isNotFound = true) :
    p.Frees holder name [⟨_, x⟩, ⟨_, y⟩] o where
  writes r hr other := by
    rcases List.mem_cons.1 hr with rfl | hr
    · contradiction
    · obtain rfl := List.mem_singleton.1 hr
      exact ⟨l, rfl, held, x, List.mem_cons_self, found⟩
  error e he := by
    obtain ⟨fails, other⟩ := error e he
    have failed : (Round.mk _ y).error? = some e := Round.error?_eq_some_iff.2 fails
    refine ⟨settled e he, _, rfl, failed, fun missing => ?_⟩
    rw [other] at missing
    contradiction
  freed he := by
    refine .inr ⟨_, List.mem_cons_of_mem _ List.mem_cons_self, rfl, ?_⟩
    rcases freed he with ⟨written, stored⟩ | ⟨e, fails, missing⟩
    · exact .inl (by rw [Round.stored?, stored]; rfl)
    · exact .inr ⟨e, Round.error?_eq_some_iff.2 fails, missing⟩

end

theorem frees_release :
    (p.release holder name).run.Guarantees Round.IsFair (p.Frees holder name) := by
  refine guarantees_call ⟨by simp, nofun, nofun⟩ fun x fair => ?_
  cases hx : x.reply with
  | error e => exact frees_of_read fair (by rintro _ ⟨⟩; exact hx) nofun
  | ok found =>
    have shows := fair.shows p.ns name x rfl found hx
    cases found with
    | none =>
      refine frees_of_read fair nofun fun _ l there => ?_
      rw [shows] at there
      contradiction
    | some l =>
      simp only
      split
      · rename_i other
        refine frees_of_read fair nofun fun _ m there => ?_
        obtain rfl := Option.some.inj (shows.symm.trans there)
        simpa using other
      · rename_i own
        have held : l.isHeldBy holder = true := by simpa using own
        refine guarantees_reply (frees_of_read fair nofun nofun) fun y _ => ?_
        cases hy : y.reply with
        | ok written => exact frees_of_write hx held nofun nofun fun _ => .inl ⟨_, hy⟩
        | error e =>
          simp only
          split
          · exact frees_of_write hx held nofun nofun nofun
          · rename_i noConflict
            split
            · rename_i missing
              exact frees_of_write hx held nofun nofun fun _ => .inr ⟨e, hy, missing⟩
            · rename_i present
              refine frees_of_write hx held ?_ ?_ nofun
              · rintro _ ⟨⟩
                simpa using noConflict
              · rintro _ ⟨⟩
                exact ⟨hy, by simpa using present⟩

/-! ## All operations -/

/-- How the operations of a pool go with a counterpart, whoever makes them and whenever. -/
structure WithstandsRaces (p : Pool) (w : Counterpart) : Prop where
  ensure : ∀ role name, (p.ensure role name).run.Ends w fun _ o => IsSettled o
  desiredReplicas : p.topology.desiredReplicas?.run.Ends w fun _ o => IsSettled o
  renew : ∀ l holder, (renew l holder).run.Ends w (Claims holder)
  renewByName : ∀ name holder, (p.renewByName name holder).run.Ends w (Claims holder)
  acquireMember : ∀ holder pool, (p.acquireMember holder pool).run.Ends w (Claims holder)
  acquireMemberHinted : ∀ holder pool known,
    (p.acquireMemberHinted holder pool known).run.Ends w (Claims holder)
  acquireLeader : ∀ holder name i n s, Elects holder
    (Scene.converse i w n (p.findLeader name).run s)
    (Scene.converse i w n (p.acquireLeader holder name).run s)
  release : ∀ holder name, (p.release holder name).run.Ends w (p.Frees holder name)

/-- **Lost races are no errors, and one call claims one lease at most**, whoever replies and
whatever others do in the meantime, as long as reads are fair. -/
theorem withstandsRaces (p : Pool) {w : Counterpart} (fair : w.IsFair) : p.WithstandsRaces w where
  ensure _ _ := settles_ensure.ends fair
  desiredReplicas := Topology.settles_desiredReplicas?.ends fair
  renew _ _ := claims_renew.ends fair
  renewByName _ _ := claims_renewByName.ends fair
  acquireMember _ _ := claims_acquireMember.ends fair
  acquireMemberHinted _ _ _ := claims_acquireMemberHinted.ends fair
  acquireLeader _ _ _ _ _ := elects_acquireLeader fair
  release _ _ := frees_release.ends fair

/-! ## Stores that fail -/

/-- A read of a store in memory is refused only when the store is switched off. -/
theorem error_of_read {store : MemoryStore} {c : StoreCall} {e : PoolError}
    (read : c.written? = none) (refused : (store.answer c).2 = .error e) :
    e = .unavailable .offline := by
  simp only [MemoryStore.answer] at refused
  split at refused
  · exact (Except.error.inj refused).symm
  · cases c <;> contradiction

/-- **A store in memory is fair**, whichever writes fail and whatever others do. -/
theorem isFair_ofStore {failing : Nat → StoreCall → Option PoolError}
    {before after : Nat → Scene → Scene}
    (reads : ∀ n c e, c.written? = none → failing n c = some e → e.isConflict = false) :
    (Counterpart.ofStore failing before after).IsFair := by
  intro n s c x hx
  simp only [Counterpart.ofStore] at hx
  split at hx
  · rename_i e fails
    obtain rfl := Option.some.inj hx
    refine ⟨fun read e' he' => ?_, fun ns name y same l? hy => ?_⟩
    · obtain rfl := Option.some.inj he'
      exact reads n c e (Option.isNone_iff_eq_none.1 read) fails
    · cases same
      contradiction
  · obtain rfl := Option.some.inj hx
    refine ⟨fun read e he => ?_, fun ns name y same l? hy => ?_⟩
    · rw [error_of_read (Option.isNone_iff_eq_none.1 read) (Round.error?_eq_some_iff.1 he)]
      rfl
    · cases same
      cases offline : (before n s).store.offline <;>
        simp [MemoryStore.answer, offline] at hy ⊢
      exact hy

/-- A member lease that is held by a pod. -/
def heldScene : Scene where
  store := MemoryStore.put {}
    { metadata := { name := "flow-pool-member-orders-00", ns := "ns" }
      claim := { holder := some "web-0" } }
  clock := ⟨.utc ⟨0⟩⟩

/-- Whether the pod holds the lease. -/
def isKept (s : Scene) : Bool :=
  (s.store.lease? "ns" "flow-pool-member-orders-00").any fun l => l.isHeldBy "web-0"

/-- A store that denies that there is a lease when it is to be written. -/
def denying : Counterpart :=
  .ofStore (fun n _ => if n = 1 then some (.notFound .lease "flow-pool-member-orders-00") else none)
    (fun _ s => s) fun _ s => s

theorem isFair_denying : denying.IsFair := by
  refine isFair_ofStore fun n c e _ fails => ?_
  split at fails
  · rw [← Option.some.inj fails]
    rfl
  · contradiction

/-- The pool of that lease. -/
def orders : Pool where
  ns := "ns"
  name := "orders"
  duration := ⟨60, 30⟩
  topology := .fixed 1

/-- How the pod gives up its lease to that store. -/
def deniedRelease : Conversation (Except PoolError Bool) :=
  heldScene.converse 0 denying 0 (orders.release "web-0" "flow-pool-member-orders-00").run

/-- **A release takes the word of the store** that a lease is gone: it is reported although the pod
has held the lease all the time, and nothing was stored. -/
theorem deniedRelease_reported :
    denying.IsFair ∧ isKept heldScene = true ∧ deniedRelease.result? = some (.ok true) ∧
      ∀ r ∈ deniedRelease.rounds, r.stored? = none ∧ isKept r.service.decided = true ∧
        isKept r.service.scene = true := by
  refine ⟨isFair_denying, ?_, ?_, ?_⟩
  · decide +kernel
  · decide +kernel
  · decide +kernel

/-- With that store the operations go as with any other. -/
theorem withstandsRaces_denying : denying.IsFair ∧ orders.WithstandsRaces denying :=
  ⟨isFair_denying, withstandsRaces orders isFair_denying⟩

end Pool

end LeasePool
