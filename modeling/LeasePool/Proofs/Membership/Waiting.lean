import LeasePool.Proofs.Membership.Lobby

/-!
# Waiting for a member lease

What a caller gets depends on the first event after its call and on nothing else, except that a
caller which looks at its gate at the deadline or later takes what it finds there before it looks
at the time.
-/

namespace LeasePool

/-! ## The first event decides -/

/-- The name with which an event opens the gate, if it does. -/
def Delivery.opening? (e : Delivery) : Option String :=
  if e.kind = .acquired then some e.lease else none

/-- What a caller can get up to now, given the first event after its call. A lease that is
acquired at the deadline or later is for those who have not run out of time before. -/
inductive Verdict (limit : Span) (deadline now : Nat) :
    Option Delivery → Except PoolError String → Prop
  | acquired {e : Delivery} (opens : e.kind = .acquired) :
    Verdict limit deadline now (some e) (.ok e.lease)
  | late {e : Delivery} (opens : e.kind = .acquired) (late : deadline ≤ e.time)
    (due : deadline ≤ now) :
    Verdict limit deadline now (some e) (.error (.timeout limit))
  | ended {e : Delivery} (ends : e.kind ≠ .acquired) (due : deadline ≤ now) :
    Verdict limit deadline now (some e) (.error (.timeout limit))
  | none (due : deadline ≤ now) : Verdict limit deadline now .none (.error (.timeout limit))

theorem Verdict.mono {limit : Span} {deadline now later : Nat} {first : Option Delivery}
    {result : Except PoolError String} (V : Verdict limit deadline now first result)
    (h : now ≤ later) : Verdict limit deadline later first result := by
  cases V with
  | acquired opens => exact .acquired opens
  | late opens late due => exact .late opens late (Nat.le_trans due h)
  | ended ends due => exact .ended ends (Nat.le_trans due h)
  | none due => exact .none (Nat.le_trans due h)

/-- A caller that had run out of time before any event gets nothing from the next one. -/
theorem Verdict.deliver {limit : Span} {deadline now : Nat} {result : Except PoolError String}
    {kind : EventKind} {lease : String} (V : Verdict limit deadline now .none result) :
    Verdict limit deadline now (some ⟨now, kind, lease⟩) result := by
  cases V with
  | none due =>
    by_cases opens : kind = .acquired
    · exact .late opens due due
    · exact .ended opens due

section

variable {limit : Span} {deadline now : Nat} {first : Option Delivery} {e : Delivery}
  {result : Except PoolError String}

/-- A lease that is acquired in time is what a caller gets. -/
theorem Verdict.eq_ok (V : Verdict limit deadline now (some e) result) (opens : e.kind = .acquired)
    (early : e.time < deadline) : result = .ok e.lease := by
  cases V with
  | acquired => rfl
  | late _ late _ => omega
  | ended ends => exact absurd opens ends

/-- Without an acquisition a caller runs out of time. -/
theorem Verdict.eq_timeout (V : Verdict limit deadline now first result)
    (other : ∀ e, first = some e → e.kind ≠ .acquired) : result = .error (.timeout limit) := by
  cases V with
  | acquired opens => exact absurd opens (other _ rfl)
  | late | ended | none => rfl

/-- Nothing else is what a caller can get. -/
theorem Verdict.ok_or_timeout (V : Verdict limit deadline now first result) :
    (∃ e, first = some e ∧ e.kind = .acquired ∧ result = .ok e.lease) ∨
      (result = .error (.timeout limit) ∧ deadline ≤ now ∧
        ∀ e, first = some e → e.kind = .acquired → deadline ≤ e.time) := by
  cases V with
  | @acquired e opens => exact .inl ⟨e, rfl, opens, rfl⟩
  | late opens late due =>
    refine .inr ⟨rfl, due, ?_⟩
    rintro d same -
    cases same
    exact late
  | ended ends due =>
    refine .inr ⟨rfl, due, ?_⟩
    rintro d same opens
    cases same
    exact absurd opens ends
  | none due => exact .inr ⟨rfl, due, by simp⟩

end

namespace Lobby

variable {x y z : Lobby} {m : Move} {k n g deadline : Nat} {limit : Span}

/-- How a caller stands that has called after `n` events and found the gate `g`: it waits, or it
got what the first event decided. While it is parked and nobody has woken it, no lease was
acquired before now. -/
inductive Stands (x : Lobby) (k n g : Nat) (limit : Span) (deadline : Nat) : Prop
  | waiting {wait : Wait} (caller : x.callers[k]? = some (.waiting g wait limit deadline))
    (prompt : wait = .parked → k ∉ (x.coordinator.gateAt g).woken → ∀ e, x.events[n]? = some e →
      e.kind = .acquired → e.time = x.elapsed) : Stands x k n g limit deadline
  | answered {result : Except PoolError String} (caller : x.callers[k]? = some (.answered result))
    (verdict : Verdict limit deadline x.elapsed x.events[n]? result) :
    Stands x k n g limit deadline

/-- What is known of a caller that has called after `n` events and found the gate `g`. -/
structure Awaits (k n g : Nat) (limit : Span) (deadline : Nat) (x : Lobby) : Prop where
  here : g ≤ x.coordinator.past.length
  before : n ≤ x.events.length
  /-- The first event has opened the gate, or nobody has. -/
  name : (x.coordinator.gateAt g).name = x.events[n]?.bind Delivery.opening?
  now : x.events[n]? = none → g = x.coordinator.past.length
  gone : ∀ e, x.events[n]? = some e → e.kind ≠ .acquired → g < x.coordinator.past.length
  stands : x.Stands k n g limit deadline

namespace Awaits

variable (A : x.Awaits k n g limit deadline) (K : x.IsKept)
include A K

/-- At a gate that an earlier event has opened nobody is parked who has not been woken. -/
theorem mem_woken {e : Delivery} (quiet : x.isRinging = false)
    (caller : x.callers[k]? = some (.waiting g .parked limit deadline))
    (first : x.events[n]? = some e) (opens : e.kind = .acquired) :
    k ∈ (x.coordinator.gateAt g).woken := by
  have minds := (K.minds k g .parked limit deadline caller).2
  refine (minds.of_imp fun ringing => ?_).mem_woken ?_
  · rw [quiet] at ringing
    exact absurd ringing.1 Bool.false_ne_true
  · rw [A.name, first]
    simp [Delivery.opening?, opens]

/-- Another event is delivered. -/
theorem deliver_of_some {kind : EventKind} {lease : String} {e : Delivery}
    (quiet : x.isRinging = false) (first : x.events[n]? = some e) :
    Awaits k n g limit deadline { x with
      coordinator := received x.coordinator kind lease
      isRinging := kind = .acquired
      events := x.events ++ [⟨x.elapsed, kind, lease⟩] } := by
  have past := length_past_received x.coordinator kind lease
  have older : x.coordinator.past.length ≤ (received x.coordinator kind lease).past.length := by
    rw [past]
    split <;> omega
  have short : n < x.events.length := (List.getElem?_eq_some_iff.1 first).1
  have same : (x.events ++ [⟨x.elapsed, kind, lease⟩])[n]? = x.events[n]? :=
    List.getElem?_append_left short
  have gate := gateAt_received kind lease A.here
  -- A gate that the first event has opened keeps its name; one that it has ended is not concerned.
  have kept : ((received x.coordinator kind lease).gateAt g).name =
      (x.coordinator.gateAt g).name := by
    rw [gate]
    split
    · rename_i again
      by_cases opens : e.kind = .acquired
      · have opened : (x.coordinator.gateAt g).name = some e.lease := by
          rw [A.name, first]
          simp [Delivery.opening?, opens]
        simp [Gate.named, opened]
      · exact absurd again.2 (Nat.ne_of_lt (A.gone e first opens))
    · rfl
  have woken : ((received x.coordinator kind lease).gateAt g).woken =
      (x.coordinator.gateAt g).woken := by
    rw [gate]
    split <;> rfl
  refine ⟨Nat.le_trans A.here older, ?_, ?_, ?_, ?_, ?_⟩
  · exact Nat.le_trans A.before (by simp)
  · exact kept.trans (by rw [A.name, same])
  · intro none
    rw [same, first] at none
    contradiction
  · intro d hd ends
    rw [same] at hd
    exact Nat.lt_of_lt_of_le (A.gone d hd ends) older
  · cases A.stands with
    | waiting caller prompt =>
      refine .waiting caller fun parked out d hd opens => ?_
      subst parked
      have hd : (x.events ++ [⟨x.elapsed, kind, lease⟩])[n]? = some d := hd
      rw [same] at hd
      simp only [woken] at out
      exact absurd (A.mem_woken K quiet caller hd opens) out
    | answered caller verdict =>
      refine .answered caller ?_
      simp only [same]
      exact verdict

omit K in
/-- The first event is delivered. -/
theorem deliver_of_none {kind : EventKind} {lease : String} (first : x.events[n]? = none) :
    Awaits k n g limit deadline { x with
      coordinator := received x.coordinator kind lease
      isRinging := kind = .acquired
      events := x.events ++ [⟨x.elapsed, kind, lease⟩] } := by
  have past := length_past_received x.coordinator kind lease
  obtain rfl : n = x.events.length := Nat.le_antisymm A.before (List.getElem?_eq_none_iff.1 first)
  have now := A.now first
  have shut : (x.coordinator.gateAt g).name = none := by rw [A.name, first]; rfl
  have same : (x.events ++ [⟨x.elapsed, kind, lease⟩])[x.events.length]? =
      some ⟨x.elapsed, kind, lease⟩ := List.getElem?_concat_length
  have gate := gateAt_received kind lease A.here
  refine ⟨?_, by simp, ?_, ?_, ?_, ?_⟩
  · simp only [past]
    split <;> omega
  · simp only [same, Option.bind_some, Delivery.opening?]
    rw [gate]
    by_cases opens : kind = .acquired
    · simp [opens, now, Gate.named, now ▸ shut]
    · simp [opens, shut]
  · intro none
    rw [same] at none
    contradiction
  · intro d hd ends
    rw [same] at hd
    obtain rfl := Option.some.inj hd
    simp only [past, if_neg ends]
    omega
  · cases A.stands with
    | waiting caller prompt =>
      refine .waiting caller fun _ _ d hd _ => ?_
      rw [same] at hd
      rw [← Option.some.inj hd]
    | answered caller verdict =>
      rw [first] at verdict
      refine .answered caller ?_
      simp only [same]
      exact verdict.deliver

/-- It is the turn of the caller. -/
theorem step_own {wait : Wait} (caller : x.callers[k]? = some (.waiting g wait limit deadline))
    (prompt : wait = .parked → k ∉ (x.coordinator.gateAt g).woken → ∀ e, x.events[n]? = some e →
      e.kind = .acquired → e.time = x.elapsed) :
    (x.step k g wait limit deadline).Stands k n g limit deadline := by
  have there : k < x.callers.length := (List.getElem?_eq_some_iff.1 caller).1
  have stands : (x.step k g wait limit deadline).callers[k]? =
      some (x.stepped g limit deadline wait ((x.coordinator.gateAt g).step k wait).2) := by
    rw [callers_step, if_pos ⟨rfl, there⟩]
  rcases (K.minds k g wait limit deadline caller).2.step with ⟨name, opened, passed⟩ | minds
  · rw [passed] at stands
    refine .answered stands ?_
    rw [A.name] at opened
    obtain ⟨e, first, opens⟩ := Option.bind_eq_some_iff.1 opened
    simp only [Delivery.opening?] at opens
    split at opens
    · rename_i acquired
      obtain rfl := Option.some.inj opens
      change Verdict limit deadline x.elapsed x.events[n]? _
      rw [first]
      exact .acquired acquired
    · contradiction
  · rw [stepped_of_ne_passed minds.ne_passed] at stands
    by_cases due : wait = .parked ∧ ((x.coordinator.gateAt g).step k wait).2 = .parked ∧
        deadline ≤ x.elapsed
    · rw [if_pos due] at stands
      refine .answered stands ?_
      obtain ⟨rfl, still, due⟩ := due
      change Verdict limit deadline x.elapsed x.events[n]? _
      cases first : x.events[n]? with
      | none => exact .none due
      | some e =>
        by_cases opens : e.kind = .acquired
        · have now := prompt rfl (Gate.not_mem_woken_of_step still) e first opens
          exact .late opens (now ▸ due) due
        · exact .ended opens due
    · rw [if_neg due] at stands
      refine .waiting stands fun parked out e (first : x.events[n]? = some e) opens => ?_
      rw [gateAt_step A.here A.here, if_pos rfl] at out
      cases wait with
      | arriving => contradiction
      | passed name => contradiction
      | parked =>
        refine prompt rfl (Gate.not_mem_woken_of_step parked) e first opens
      | registered =>
        -- Whoever finds the gate open does not park.
        have opened : (x.coordinator.gateAt g).name = some e.lease := by
          rw [A.name, first]
          simp [Delivery.opening?, opens]
        simp [Gate.step, opened] at parked

/-- **The first event decides**, whatever happens. -/
theorem turn (h : x.turn? m = some y) : y.Awaits k n g limit deadline := by
  obtain ⟨here, -, woken⟩ := gateAt_of_turn (k := k) K h A.here
  cases change_of_turn? h with
  | deliver quiet =>
    cases first : x.events[n]? with
    | none => exact A.deliver_of_none first
    | some e => exact A.deliver_of_some K quiet first
  | ring ringing =>
    refine ⟨here, A.before, ?_, A.now, A.gone, ?_⟩
    · rw [← A.name]
      change ((rung x.coordinator).gateAt g).name = _
      rw [gateAt_rung A.here]
      split <;> rfl
    · cases A.stands with
      | waiting caller prompt =>
        exact .waiting caller fun parked out => prompt parked (mt (woken Move.noConfusion) out)
      | answered caller verdict => exact .answered caller verdict
  | arrive =>
    refine ⟨here, A.before, A.name, A.now, A.gone, ?_⟩
    cases A.stands with
    | waiting caller prompt => exact .waiting (callers_of_turn h Move.noConfusion caller) prompt
    | answered caller verdict =>
      exact .answered (callers_of_turn h Move.noConfusion caller) verdict
  | @step j gate wait limit' deadline' caller =>
    have there := (K.minds j gate wait limit' deadline' caller).1
    have past : (x.step j gate wait limit' deadline').coordinator.past.length =
        x.coordinator.past.length := Coordinator.length_past_setGateAt
    refine ⟨here, A.before, ?_, past.symm ▸ A.now, past.symm ▸ A.gone, ?_⟩
    · rw [name_gateAt_step there A.here]
      exact A.name
    · by_cases own : j = k
      · subst own
        cases A.stands with
        | waiting own prompt =>
          rw [own] at caller
          cases caller
          exact A.step_own K own prompt
        | answered own =>
          rw [own] at caller
          cases caller
      · have own : Move.step j ≠ .step k := fun same => own (Move.step.inj same)
        cases A.stands with
        | waiting stands prompt =>
          exact .waiting (callers_of_turn h own stands) fun parked out =>
            prompt parked (mt (woken own) out)
        | answered stands verdict => exact .answered (callers_of_turn h own stands) verdict
  | idle => exact A
  | @pass millis quiet =>
    refine ⟨here, A.before, A.name, A.now, A.gone, ?_⟩
    cases A.stands with
    | waiting caller prompt =>
      refine .waiting caller fun parked out e first opens => ?_
      subst parked
      exact absurd (A.mem_woken K quiet caller first opens) out
    | answered caller verdict => exact .answered caller (verdict.mono (Nat.le_add_right _ _))

/-- And so it does over any moves. -/
theorem run {moves : List Move} (h : x.run? moves = some y) : y.Awaits k n g limit deadline := by
  induction moves generalizing x with
  | nil =>
    obtain rfl := Option.some.inj h
    exact A
  | cons m moves ih =>
    obtain ⟨x', turn, rest⟩ := Option.bind_eq_some_iff.1 h
    exact ih (A.turn K turn) (K.turn turn) rest

end Awaits

end Lobby

/-! ## Everybody gets an answer -/

namespace Gate

variable {gate : Gate} {k : Nat} {wait : Wait}

/-- How many turns of its own a waiter needs at most, once the gate has been opened or its time
is up. At a gate that is still shut it needs more, as an opening may make it start again. -/
def turns (gate : Gate) : Wait → Nat
  | .arriving => if gate.name.isSome then 2 else 5
  | .registered => if gate.name.isSome then 1 else 4
  | .parked => 3
  | .passed _ => 0

theorem turns_le_five : gate.turns wait ≤ 5 := by
  cases wait <;> by_cases opened : gate.name.isSome <;> simp [turns, opened]

theorem turns_le_of_name {later : Gate}
    (keeps : ∀ name, gate.name = some name → later.name = some name) :
    later.turns wait ≤ gate.turns wait := by
  cases opened : gate.name with
  | none =>
    cases wait <;> by_cases again : later.name.isSome <;> simp [turns, opened, again]
  | some name => cases wait <;> simp [turns, opened, keeps name opened]

/-- A step brings a waiter nearer to its answer, unless it stays parked. -/
theorem turns_step_lt (asleep : gate.name = none → gate.woken = [])
    (waits : ∀ name, (gate.step k wait).2 ≠ .passed name)
    (moves : wait = .parked → (gate.step k wait).2 ≠ .parked) :
    (gate.step k wait).1.turns (gate.step k wait).2 < gate.turns wait := by
  cases wait with
  | passed name => exact absurd rfl (waits name)
  | arriving => by_cases opened : gate.name.isSome <;> simp [step, turns, opened]
  | registered =>
    cases opened : gate.name with
    | none => simp [step, turns, opened]
    | some name => exact absurd (by simp [step, opened]) (waits name)
  | parked =>
    by_cases called : k ∈ gate.woken
    · have opened : gate.name.isSome = true := by
        rw [Option.isSome_iff_ne_none]
        intro shut
        simp [asleep shut] at called
      simp [step, called, turns, opened]
    · exact absurd (by simp [step, called]) (moves rfl)

/-- Nobody parks at an open gate. -/
theorem eq_parked_of_step (opened : gate.name.isSome = true)
    (parks : (gate.step k wait).2 = .parked) : wait = .parked := by
  obtain ⟨name, opened⟩ := Option.isSome_iff_exists.1 opened
  cases wait with
  | arriving | passed => cases parks
  | registered => simp [step, opened] at parks
  | parked => rfl

end Gate

namespace Lobby

variable {x y z : Lobby} {m : Move} {moves : List Move} {k n g left : Nat}

/-- A caller that has got its answer, or will get it after so many turns of its own: its gate is
open, and it has been woken if it is parked there, or else its time is up. -/
inductive Nears (k left : Nat) (x : Lobby) : Prop
  | answered {result : Except PoolError String}
    (caller : x.callers[k]? = some (.answered result)) : Nears k left x
  | waiting {g deadline : Nat} {wait : Wait} {limit : Span}
    (caller : x.callers[k]? = some (.waiting g wait limit deadline))
    (ready : (x.coordinator.gateAt g).name.isSome = true ∧
      (wait = .parked → k ∈ (x.coordinator.gateAt g).woken) ∨ deadline ≤ x.elapsed)
    (turns : (x.coordinator.gateAt g).turns wait ≤ left) : Nears k left x

/-- Others do not put it off. -/
theorem Nears.turn_of_ne (N : x.Nears k left) (K : x.IsKept) (h : x.turn? m = some y)
    (other : m ≠ .step k) : y.Nears k left := by
  cases N with
  | answered caller => exact .answered (callers_of_turn h other caller)
  | @waiting g deadline wait limit caller ready turns =>
    obtain ⟨-, keeps, woken⟩ := gateAt_of_turn (k := k) K h (K.minds _ _ _ _ _ caller).1
    refine .waiting (callers_of_turn h other caller) ?_
      (Nat.le_trans (Gate.turns_le_of_name keeps) turns)
    rcases ready with ⟨opened, called⟩ | due
    · obtain ⟨name, opened⟩ := Option.isSome_iff_exists.1 opened
      exact .inl ⟨by simp [keeps name opened], fun parked => woken other (called parked)⟩
    · exact .inr (Nat.le_trans due (elapsed_le_of_turn h).1)

/-- A turn of its own brings a caller nearer to its answer. -/
theorem Nears.turn_own (N : x.Nears k (left + 1)) (K : x.IsKept)
    (h : x.turn? (.step k) = some y) : y.Nears k left := by
  cases N with
  | answered caller =>
    simp only [turn?, caller] at h
    obtain rfl := Option.some.inj h
    exact .answered caller
  | @waiting g deadline wait limit caller ready turns =>
    simp only [turn?, caller] at h
    obtain rfl := Option.some.inj h
    obtain ⟨here, minds⟩ := K.minds k g wait limit deadline caller
    have stands : (x.step k g wait limit deadline).callers[k]? =
        some (x.stepped g limit deadline wait ((x.coordinator.gateAt g).step k wait).2) := by
      rw [callers_step, if_pos ⟨rfl, (List.getElem?_eq_some_iff.1 caller).1⟩]
    have gate : (x.step k g wait limit deadline).coordinator.gateAt g =
        ((x.coordinator.gateAt g).step k wait).1 := by
      rw [gateAt_step here here, if_pos rfl]
    rcases minds.step with ⟨name, -, passed⟩ | minds
    · rw [passed] at stands
      exact .answered stands
    · rw [stepped_of_ne_passed minds.ne_passed] at stands
      split at stands
      · exact .answered stands
      · rename_i goes
        have moves : wait = .parked → ((x.coordinator.gateAt g).step k wait).2 ≠ .parked := by
          rintro rfl still
          rcases ready with ⟨-, called⟩ | due
          · exact Gate.not_mem_woken_of_step still (called rfl)
          · exact goes ⟨rfl, still, due⟩
        have nearer := Gate.turns_step_lt (K.asleep g here) minds.ne_passed moves
        refine .waiting stands ?_ (by rw [gate]; omega)
        rcases ready with ⟨opened, -⟩ | due
        · refine .inl ⟨by rwa [gate, Gate.name_step], fun parks => ?_⟩
          exact absurd parks (moves (Gate.eq_parked_of_step opened parks))
        · exact .inr due

/-- A caller gets its answer in so many turns, whatever the others do in between. -/
theorem Nears.run (N : x.Nears k left) (K : x.IsKept) (h : x.run? moves = some y)
    (turns : left ≤ moves.count (.step k)) :
    ∃ result, y.callers[k]? = some (.answered result) := by
  induction moves generalizing x left with
  | nil =>
    obtain rfl := Option.some.inj h
    cases N with
    | answered caller => exact ⟨_, caller⟩
    | @waiting g _ wait _ caller _ short =>
      have minds := (K.minds _ _ _ _ _ caller).2
      have none : (x.coordinator.gateAt g).turns wait = 0 := by simpa using Nat.le_trans short turns
      cases wait with
      | passed name => exact absurd rfl (minds.ne_passed name)
      | arriving | registered =>
        simp only [Gate.turns] at none
        split at none <;> contradiction
      | parked => contradiction
  | cons m moves ih =>
    obtain ⟨x', turn, rest⟩ := Option.bind_eq_some_iff.1 h
    by_cases own : m = .step k
    · subst own
      rw [List.count_cons_self] at turns
      have nears : x.Nears k (left - 1 + 1) := by
        cases N with
        | answered caller => exact .answered caller
        | waiting caller ready short => exact .waiting caller ready (by omega)
      exact ih (nears.turn_own K turn) (K.turn turn) rest (by omega)
    · rw [List.count_cons_of_ne own] at turns
      exact ih (N.turn_of_ne K turn own) (K.turn turn) rest turns

/-! ## What callers get -/

/-- The answer that a caller has got. -/
def answer? (x : Lobby) (k : Nat) : Option (Except PoolError String) :=
  match x.callers[k]? with
  | some (.answered result) => some result
  | _ => none

/-- The first event of a later lobby that was not there yet. -/
def firstSince (x later : Lobby) : Option Delivery := later.events[x.events.length]?

theorem answer?_eq_some {result : Except PoolError String} :
    x.answer? k = some result ↔ x.callers[k]? = some (.answered result) := by
  simp only [answer?]
  split
  · rename_i caller
    simp [caller]
  · rename_i other
    refine ⟨fun none => ?_, fun caller => absurd caller (other result)⟩
    contradiction

/-- Somebody asks while the process is unbound. -/
theorem awaits_arrive (limit : Span) (K : x.IsKept)
    (unbound : x.coordinator.membership = .unbound) :
    Awaits x.callers.length x.events.length x.coordinator.gateNumber limit
      (x.elapsed + limit.ceilMillis) { x with callers := x.callers ++ [x.admitted limit] } where
  here := Nat.le_refl _
  before := Nat.le_refl _
  name := by
    simp [Coordinator.gateNumber, Coordinator.gateAt_of_le, K.membership.1 unbound]
  now _ := rfl
  gone e first := by simp at first
  stands := by
    have caller : (x.callers ++ [x.admitted limit])[x.callers.length]? =
        some (.waiting x.coordinator.gateNumber .arriving limit
          (x.elapsed + limit.ceilMillis)) := by
      simp [admitted, unbound]
    exact .waiting caller fun parked => Wait.noConfusion parked

/-- What a caller has got is what the first event decides. -/
theorem Awaits.verdict {limit : Span} {n deadline : Nat} {result : Except PoolError String}
    (A : x.Awaits k n g limit deadline) (answer : x.answer? k = some result) :
    Verdict limit deadline x.elapsed x.events[n]? result := by
  rw [answer?_eq_some] at answer
  cases A.stands with
  | waiting caller => simp [answer] at caller
  | answered caller verdict =>
    rw [answer] at caller
    cases caller
    exact verdict

/-- A caller whose lease has been acquired will have it soon. -/
theorem Awaits.nears_of_acquired {limit : Span} {n deadline : Nat} {e : Delivery}
    (A : x.Awaits k n g limit deadline) (K : x.IsKept) (quiet : x.isRinging = false)
    (first : x.events[n]? = some e) (opens : e.kind = .acquired) : x.Nears k 5 := by
  cases A.stands with
  | answered caller => exact .answered caller
  | waiting caller =>
    refine .waiting caller (.inl ⟨?_, ?_⟩) Gate.turns_le_five
    · rw [A.name, first]
      simp [Delivery.opening?, opens]
    · rintro rfl
      exact A.mem_woken K quiet caller first opens

/-- A caller that is out of time will know it soon. -/
theorem Awaits.nears_of_due {limit : Span} {n deadline : Nat}
    (A : x.Awaits k n g limit deadline) (due : deadline ≤ x.elapsed) : x.Nears k 5 := by
  cases A.stands with
  | answered caller => exact .answered caller
  | waiting caller => exact .waiting caller (.inr due) Gate.turns_le_five

/-- **What callers get.** After any moves somebody asks for the lease, and then anything may
happen. A caller that finds the process bound gets the lease at once. For one that finds it
unbound the first event after its call decides: if that is an acquisition before the deadline,
the caller gets that lease, whatever comes later; if that is another event, or there is none, it
runs out of its own time, and nothing wakes it. If it is an acquisition at the deadline or later,
the caller gets that lease or has run out of time. It takes the caller five turns at most, from
when it is certain or the time is out. All along the process is unbound exactly while its gate has
not been opened, an open gate keeps its first name, and whoever is parked at an open gate has been
woken. -/
theorem decided_of_run {before since later : List Move} {limit : Span} {w : Lobby}
    (hx : run? before {} = some x) (hy : x.turn? (.arrive limit) = some y)
    (hz : y.run? since = some z) (hw : z.run? later = some w) :
    (∀ lease, x.coordinator.membership = .bound lease →
      y.answer? x.callers.length = some (.ok lease)) ∧
    (x.coordinator.membership = .unbound →
      (∀ e, x.firstSince z = some e → e.kind = .acquired →
        e.time < x.elapsed + limit.ceilMillis → z.isRinging = false →
        5 ≤ later.count (.step x.callers.length) →
        w.answer? x.callers.length = some (.ok e.lease)) ∧
      ((∀ e, x.firstSince w = some e → e.kind ≠ .acquired) →
        x.elapsed + limit.ceilMillis ≤ z.elapsed →
        5 ≤ later.count (.step x.callers.length) →
        w.answer? x.callers.length = some (.error (.timeout limit))) ∧
      (x.elapsed + limit.ceilMillis ≤ z.elapsed →
        5 ≤ later.count (.step x.callers.length) →
        ∃ result, w.answer? x.callers.length = some result) ∧
      (∀ result, w.answer? x.callers.length = some result →
        (∃ e, x.firstSince w = some e ∧ e.kind = .acquired ∧ result = .ok e.lease) ∨
        (result = .error (.timeout limit) ∧ x.elapsed + limit.ceilMillis ≤ w.elapsed ∧
          ∀ e, x.firstSince w = some e → e.kind = .acquired →
            x.elapsed + limit.ceilMillis ≤ e.time)) ∧
      (∀ e, x.firstSince w = some e → e.kind ≠ .acquired →
        (w.coordinator.gateAt x.coordinator.gateNumber).woken = [])) ∧
    (w.coordinator.membership = .unbound ↔ w.coordinator.gate.name = none) ∧
    (∀ g ≤ z.coordinator.past.length, ∀ name, (z.coordinator.gateAt g).name = some name →
      (w.coordinator.gateAt g).name = some name) ∧
    (∀ j g limit deadline, w.callers[j]? = some (.waiting g .parked limit deadline) →
      w.isRinging = false → (w.coordinator.gateAt g).name.isSome = true →
      j ∈ (w.coordinator.gateAt g).woken) := by
  have Kx := isKept_empty.run hx
  have Ky := Kx.turn hy
  have Kz := Ky.run hz
  have Kw := Kz.run hw
  obtain rfl : y = { x with callers := x.callers ++ [x.admitted limit] } := by
    cases change_of_turn? hy
    rfl
  refine ⟨?_, ?_, Kw.membership, fun g hg name opened => name_gateAt_of_run Kz hw hg opened, ?_⟩
  · intro lease bound
    rw [answer?_eq_some]
    simp [admitted, bound]
  · intro unbound
    have Az := (awaits_arrive limit Kx unbound).run Ky hz
    have Aw := Az.run Kz hw
    have answered : x.elapsed + limit.ceilMillis ≤ z.elapsed →
        5 ≤ later.count (.step x.callers.length) →
        ∃ result, w.answer? x.callers.length = some result := fun due turns =>
      ((Az.nears_of_due due).run Kz hw turns).imp fun _ => answer?_eq_some.2
    refine ⟨?_, ?_, answered, fun result answer => (Aw.verdict answer).ok_or_timeout, ?_⟩
    · intro e first opens early quiet turns
      obtain ⟨result, answer⟩ := (Az.nears_of_acquired Kz quiet first opens).run Kz hw turns
      have answer := answer?_eq_some.2 answer
      have verdict := Aw.verdict answer
      obtain ⟨more, grown⟩ := (elapsed_le_of_run hw).2
      rw [← grown, List.getElem?_append_left (List.getElem?_eq_some_iff.1 first).1] at verdict
      have first : z.events[x.events.length]? = some e := first
      rw [first] at verdict
      rw [answer, verdict.eq_ok opens early]
    · intro other due turns
      obtain ⟨result, answer⟩ := answered due turns
      rw [answer, (Aw.verdict answer).eq_timeout other]
    · intro e first ends
      refine Kw.asleep _ Aw.here ?_
      rw [Aw.name]
      have first : w.events[x.events.length]? = some e := first
      simp [first, Delivery.opening?, ends]
  · intro j g limit deadline caller quiet opened
    obtain ⟨-, minds⟩ := Kw.minds j g .parked limit deadline caller
    exact (minds.of_imp fun ringing => by simp [quiet] at ringing).mem_woken opened

/-- The gate is opened while a caller is between registering and parking, and the lease is lost
before the caller looks at the gate again. -/
theorem decided_while_opening :
    ∃ x y z w,
      run? [.deliver .acquired "m-00", .ring, .deliver .lost "m-00"] {} = some x ∧
      x.turn? (.arrive (.ofMillis 500)) = some y ∧
      y.run? [.step 0, .step 0, .deliver .acquired "m-01", .step 0, .ring] = some z ∧
      z.run? [.deliver .lost "m-01", .step 0, .step 0, .step 0, .step 0, .step 0] = some w ∧
      w.answer? 0 = some (.ok "m-01") := by
  have decided := decided_of_run
    (rfl : run? [.deliver .acquired "m-00", .ring, .deliver .lost "m-00"] {} = some _)
    (rfl : turn? _ (.arrive (.ofMillis 500)) = some _)
    (rfl : run? [.step 0, .step 0, .deliver .acquired "m-01", .step 0, .ring] _ = some _)
    (rfl : run? [.deliver .lost "m-01", .step 0, .step 0, .step 0, .step 0, .step 0] _ = some _)
  exact ⟨_, _, _, _, rfl, rfl, rfl, rfl,
    (decided.2.1 rfl).1 ⟨0, .acquired, "m-01"⟩ rfl rfl (by decide) rfl (by decide)⟩

/-- A lease that is acquired at the deadline, and not before, still is what a caller gets that
has not looked at the time yet. -/
theorem acquired_at_deadline :
    ∃ x y z,
      run? [] {} = some x ∧ x.coordinator.membership = .unbound ∧
      x.turn? (.arrive (.ofMillis 500)) = some y ∧
      y.run? [.step 0, .step 0, .step 0, .pass 500, .deliver .acquired "m-00", .ring, .step 0,
        .step 0, .step 0] = some z ∧
      (∀ e ∈ z.events, x.elapsed + (Span.ofMillis 500).ceilMillis ≤ e.time) ∧
      z.answer? 0 = some (.ok "m-00") :=
  ⟨_, _, _, rfl, rfl, rfl, rfl, by decide, rfl⟩

/-! ## The waits of a scene -/

variable {gate : Gate} {wait : Wait} {limit : Span} {deadline : Nat}

/-- The lobby with a caller and the gate at which it is as given. -/
def put (x : Lobby) (k g : Nat) (gate : Gate) (caller : Caller) : Lobby :=
  { x with coordinator := x.coordinator.setGateAt g gate, callers := x.callers.set k caller }

theorem turn?_put (hk : k < x.callers.length) (hg : g ≤ x.coordinator.past.length) :
    (x.put k g gate (.waiting g wait limit deadline)).turn? (.step k) =
      some (x.put k g (gate.step k wait).1
        (x.stepped g limit deadline wait (gate.step k wait).2)) := by
  have here : (x.coordinator.setGateAt g gate).gateAt g = gate := by
    rw [Coordinator.gateAt_setGateAt hg hg, if_pos rfl]
  simp only [turn?, put, List.getElem?_set_self hk, step, here, Coordinator.setGateAt_setGateAt,
    List.set_set]
  rfl

theorem turn?_put_answered {result : Except PoolError String} (hk : k < x.callers.length) :
    (x.put k g gate (.answered result)).turn? (.step k) =
      some (x.put k g gate (.answered result)) := by
  simp only [turn?, put, List.getElem?_set_self hk]

/-- Four turns of a caller in a row. -/
theorem run?_four (hk : k < x.callers.length) (hg : g ≤ x.coordinator.past.length)
    (asleep : gate.name = none → gate.woken = [])
    (pauses : wait = .arriving ∨ wait = .parked) :
    (x.put k g gate (.waiting g wait limit deadline)).run?
        [.step k, .step k, .step k, .step k] =
      some (x.put k g (gate.poll k wait).1
        (x.stepped g limit deadline .parked (gate.poll k wait).2)) := by
  have turns := @turn?_put x k g
  rcases pauses with rfl | rfl
  · cases opened : gate.name with
    | some name =>
      simp [run?, turns hk hg, turn?_put_answered hk, stepped, Gate.poll, Gate.steps, Gate.step,
        opened]
    | none =>
      by_cases due : deadline ≤ x.elapsed <;>
        simp [run?, turns hk hg, turn?_put_answered hk, stepped, Gate.poll, Gate.steps, Gate.step,
          opened, asleep opened, due]
  · by_cases called : k ∈ gate.woken
    · cases opened : gate.name with
      | some name =>
        simp [run?, turns hk hg, turn?_put_answered hk, stepped, Gate.poll, Gate.steps, Gate.step,
          opened, called]
      | none => simp [asleep opened] at called
    · by_cases due : deadline ≤ x.elapsed <;>
        simp [run?, turns hk hg, turn?_put_answered hk, stepped, Gate.poll, Gate.steps, Gate.step,
          called, due]

/-- After four turns a waiter is past its gate, or parked. -/
theorem poll_pauses (asleep : gate.name = none → gate.woken = [])
    (pauses : wait = .arriving ∨ wait = .parked) :
    (∃ name, (gate.poll k wait).2 = .passed name) ∨ (gate.poll k wait).2 = .parked := by
  rcases pauses with rfl | rfl
  · cases opened : gate.name with
    | some name => simp [Gate.poll, Gate.steps, Gate.step, opened]
    | none => simp [Gate.poll, Gate.steps, Gate.step, opened, asleep opened]
  · by_cases called : k ∈ gate.woken
    · cases opened : gate.name with
      | some name => simp [Gate.poll, Gate.steps, Gate.step, opened, called]
      | none => simp [asleep opened] at called
    · simp [Gate.poll, Gate.steps, Gate.step, called]

/-- When a scene looks at a wait, the waiter takes four turns, and where it stands then is what
the scene sees. -/
theorem pollAwaiting_eq {s : Scene} {r : Replica} {i start : Nat} (K : x.IsKept)
    (replica : s.replicas[i]? = some r) (same : r.coordinator = x.coordinator)
    (now : s.elapsed = x.elapsed)
    (caller : x.callers[k]? = some (.waiting g wait limit deadline))
    (pauses : wait = .arriving ∨ wait = .parked) :
    ∃ gate stands,
      x.run? [.step k, .step k, .step k, .step k] = some (x.put k g gate stands) ∧
      s.pollAwaiting k i g wait limit deadline start =
        (s.modifyReplica i fun r => { r with coordinator := r.coordinator.setGateAt g gate },
          match stands with
          | .answered result => .ended (.awaited result (s.elapsed - start))
          | .waiting g wait limit deadline =>
            .blocked deadline (.awaiting i g wait limit deadline start)) := by
  obtain ⟨hg, -⟩ := K.minds k g wait limit deadline caller
  have hk := (List.getElem?_eq_some_iff.1 caller).1
  have asleep := K.asleep g hg
  have self : x.put k g (x.coordinator.gateAt g) (.waiting g wait limit deadline) = x := by
    have same : x.callers.set k (.waiting g wait limit deadline) = x.callers := by
      rw [← (List.getElem?_eq_some_iff.1 caller).2, List.set_getElem_self]
    simp only [put, Coordinator.setGateAt_gateAt, same]
  have four : (x.put k g _ (.waiting g wait limit deadline)).run? _ = _ :=
    run?_four hk hg asleep pauses
  rw [self] at four
  refine ⟨_, _, four, ?_⟩
  have seen : s.gate i g = x.coordinator.gateAt g := by simp [Scene.gate, replica, same]
  simp only [Scene.pollAwaiting, seen]
  rcases poll_pauses (k := k) asleep pauses with ⟨name, passed⟩ | parked
  · simp only [passed, stepped]
    rfl
  · simp only [parked, stepped]
    by_cases due : deadline ≤ x.elapsed <;> simp [Scene.modifyReplica, due, now]

end Lobby

end LeasePool
