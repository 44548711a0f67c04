import LeasePool.World.Step

/-!
# Lobbies

Callers of one coordinator, each of which asks for the lease at some moment and waits for it at
most for a time of its own, while events are delivered. Everybody goes on by small steps in any
order. In particular an opening has two halves: the gate gets its name, and then those registered
are woken; a waiter may register, look and park before, between and after them.

## Main definitions

* `Gate.named`, `Gate.rung`: the two halves of an opening.
* `Lobby`, `Lobby.turn?`, `Lobby.run?`: the callers of a coordinator, and what can happen.
* `Gate.Minds`: no waiter is forgotten.
* `Lobby.IsKept`: what holds of a lobby at all times.

## Main statements

* `Lobby.IsKept.turn`: no wakeup is lost, whatever happens in between.
* `Lobby.name_gateAt_of_run`: a gate that is open keeps its name.
-/

namespace LeasePool

namespace Gate

/-- The gate with a name of which no waiter has been told yet: the first half of an opening. -/
def named (gate : Gate) (name : String) : Gate := { gate with name := some (gate.name.getD name) }

/-- The gate when those registered have been woken: the second half of an opening. -/
def rung (gate : Gate) : Gate :=
  { gate with registered := [], woken := gate.woken ++ gate.registered }

@[simp] theorem name_step {gate : Gate} {k : Nat} {wait : Wait} :
    (gate.step k wait).1.name = gate.name := by
  cases wait with
  | arriving | passed => rfl
  | registered =>
    simp only [step]
    split <;> rfl
  | parked =>
    simp only [step]
    split <;> rfl

/-- What a step of another waiter leaves alone. -/
theorem mem_step_of_ne (gate : Gate) {j k : Nat} (wait : Wait) (other : j ≠ k) :
    (k ∈ (gate.step j wait).1.registered ↔ k ∈ gate.registered) ∧
      (k ∈ (gate.step j wait).1.woken ↔ k ∈ gate.woken) := by
  cases wait with
  | arriving =>
    constructor
    · simp [step, Ne.symm other]
    · exact List.mem_erase_of_ne (Ne.symm other)
  | passed => exact ⟨Iff.rfl, Iff.rfl⟩
  | registered =>
    simp only [step]
    split <;> exact ⟨Iff.rfl, Iff.rfl⟩
  | parked =>
    simp only [step]
    split <;> exact ⟨Iff.rfl, Iff.rfl⟩

/-- No waiter is forgotten: one that has registered is among those registered or has been woken,
and one that is parked at an open gate has been woken, unless the bell is about to ring. -/
inductive Minds (gate : Gate) (waiter : Nat) (ringing : Prop) : Wait → Prop
  | arriving : Minds gate waiter ringing .arriving
  | registered (known : waiter ∈ gate.registered ∨ waiter ∈ gate.woken) :
    Minds gate waiter ringing .registered
  | woken (called : waiter ∈ gate.woken) : Minds gate waiter ringing .parked
  | parked (known : waiter ∈ gate.registered) (shut : gate.name = none ∨ ringing) :
    Minds gate waiter ringing .parked

variable {gate : Gate} {j k : Nat} {wait : Wait} {ringing : Prop}

theorem Minds.of_imp {ringing' : Prop} (H : gate.Minds k ringing wait) (h : ringing → ringing') :
    gate.Minds k ringing' wait := by
  cases H with
  | arriving => exact .arriving
  | registered known => exact .registered known
  | woken called => exact .woken called
  | parked known shut => exact .parked known (shut.imp_right h)

/-- The first half of an opening: the bell is about to ring. -/
theorem Minds.named {name : String} (H : gate.Minds k ringing wait) :
    (gate.named name).Minds k True wait := by
  cases H with
  | arriving => exact .arriving
  | registered known => exact .registered known
  | woken called => exact .woken called
  | parked known _ => exact .parked known (.inr trivial)

/-- The second half of an opening: whoever is registered is woken. -/
theorem Minds.rung (H : gate.Minds k ringing wait) : gate.rung.Minds k False wait := by
  cases H with
  | arriving => exact .arriving
  | registered known =>
    exact .registered (.inr (known.elim (List.mem_append_right _) (List.mem_append_left _)))
  | woken called => exact .woken (List.mem_append_left _ called)
  | parked known _ => exact .woken (List.mem_append_right _ known)

/-- A step of another waiter. -/
theorem Minds.step_of_ne {move : Wait} (H : gate.Minds k ringing wait) (other : j ≠ k) :
    (gate.step j move).1.Minds k ringing wait := by
  obtain ⟨registered, woken⟩ := mem_step_of_ne gate move other
  cases H with
  | arriving => exact .arriving
  | registered known => exact .registered (known.imp registered.2 woken.2)
  | woken called => exact .woken (woken.2 called)
  | parked known shut => exact .parked (registered.2 known) (by rwa [name_step])

/-- A step of the waiter itself: it is past the gate, or it still is not forgotten. -/
theorem Minds.step (H : gate.Minds k ringing wait) :
    (∃ name, gate.name = some name ∧ gate.step k wait = (gate, .passed name)) ∨
      (gate.step k wait).1.Minds k ringing (gate.step k wait).2 := by
  cases H with
  | arriving => exact .inr (.registered (.inl (by simp [Gate.step])))
  | registered known =>
    cases open? : gate.name with
    | some name => exact .inl ⟨name, rfl, by simp [Gate.step, open?]⟩
    | none =>
      refine .inr ?_
      simp only [Gate.step, open?]
      rcases known with known | called
      · exact .parked known (.inl open?)
      · exact .woken called
  | woken called =>
    refine .inr ?_
    simp only [Gate.step, called, if_true]
    exact .arriving
  | parked known shut =>
    refine .inr ?_
    simp only [Gate.step]
    split
    · exact .arriving
    · exact .parked known shut

theorem Minds.ne_passed (H : gate.Minds k ringing wait) (name : String) :
    wait ≠ .passed name := by
  cases H <;> exact Wait.noConfusion

/-- A waiter that stays parked has not been woken. -/
theorem not_mem_woken_of_step (still : (gate.step k .parked).2 = .parked) : k ∉ gate.woken := by
  intro called
  simp [Gate.step, called] at still

/-- A parked waiter at an open gate whose bell has rung has been woken. -/
theorem Minds.mem_woken (H : gate.Minds k False .parked) (opened : gate.name.isSome = true) :
    k ∈ gate.woken := by
  cases H with
  | woken called => exact called
  | parked _ shut =>
    rw [shut.resolve_right id] at opened
    contradiction

end Gate

/-! ## Gates of a coordinator -/

namespace Coordinator

variable {c : Coordinator} {g h : Nat} {gate : Gate}

theorem gateAt_of_lt (past : g < c.past.length) : c.gateAt g = c.past[g] := by
  simp [gateAt, past]

theorem gateAt_of_le (now : c.past.length ≤ g) : c.gateAt g = c.gate := by
  simp [gateAt, now]

@[simp] theorem length_past_setGateAt : (c.setGateAt g gate).past.length = c.past.length := by
  unfold setGateAt
  split
  · exact List.length_set
  · rfl

@[simp] theorem membership_setGateAt : (c.setGateAt g gate).membership = c.membership := by
  unfold setGateAt
  split <;> rfl

theorem gateAt_setGateAt (hg : g ≤ c.past.length) (hh : h ≤ c.past.length) :
    (c.setGateAt g gate).gateAt h = if h = g then gate else c.gateAt h := by
  unfold setGateAt
  split
  · rename_i past
    rcases Nat.lt_or_eq_of_le hh with earlier | rfl
    · rw [gateAt_of_lt (by simpa using earlier), gateAt_of_lt earlier]
      simp only [List.getElem_set, eq_comm]
    · rw [gateAt_of_le (by simp), gateAt_of_le (Nat.le_refl _), if_neg (Nat.ne_of_gt past)]
  · rename_i now
    obtain rfl : g = c.past.length := by omega
    split
    · rename_i same
      exact gateAt_of_le (c := { c with gate }) (Nat.le_of_eq same.symm)
    · rename_i other
      have earlier : h < c.past.length := by omega
      rw [gateAt_of_lt (c := { c with gate }) earlier, gateAt_of_lt earlier]

theorem setGateAt_setGateAt {later : Gate} :
    (c.setGateAt g gate).setGateAt g later = c.setGateAt g later := by
  by_cases past : g < c.past.length <;> simp [setGateAt, past]

@[simp] theorem setGateAt_gateAt : c.setGateAt g (c.gateAt g) = c := by
  by_cases past : g < c.past.length <;> simp [setGateAt, gateAt, past]

/-- The gates up to now stay where they are when a new one is put up. -/
theorem gateAt_deliver {kind : EventKind} (lease : String) (ends : kind ≠ .acquired)
    (hg : g ≤ c.past.length) : (c.deliver kind lease).gateAt g = c.gateAt g := by
  have put : c.deliver kind lease = ⟨.unbound, c.past ++ [c.gate], {}⟩ := by
    cases kind with
    | acquired => contradiction
    | lost | released => rfl
  rw [put]
  rcases Nat.lt_or_eq_of_le hg with earlier | rfl
  · rw [gateAt_of_lt earlier, gateAt_of_lt (by simp; omega)]
    exact List.getElem_append_left earlier
  · rw [gateAt_of_le (Nat.le_refl _), gateAt_of_lt (by simp)]
    simp

end Coordinator

/-! ## Lobbies -/

/-- An event that was delivered. -/
structure Delivery where
  time : Nat
  kind : EventKind
  lease : String
  deriving DecidableEq, Repr

/-- Where a caller stands. -/
inductive Caller where
  | waiting (gate : Nat) (wait : Wait) (limit : Span) (deadline : Nat)
  | answered (result : Except PoolError String)

/-- The callers of a coordinator. -/
structure Lobby where
  coordinator : Coordinator := {}
  /-- Whether the gate has got its name and the bell has yet to ring. -/
  isRinging : Bool := false
  /-- Milliseconds that have passed. -/
  elapsed : Nat := 0
  callers : List Caller := []
  /-- The events so far, the first one first. -/
  events : List Delivery := []

namespace Lobby

/-- Something that can happen. -/
inductive Move where
  /-- An event is delivered. If it opens the gate, the bell rings later. -/
  | deliver (kind : EventKind) (lease : String)
  | ring
  /-- Somebody asks for the lease and has so much time for it. -/
  | arrive (limit : Span)
  /-- It is the turn of a caller. -/
  | step (caller : Nat)
  | pass (millis : Nat)
  deriving DecidableEq

/-- The coordinator after an event, but for the bell. -/
def received (c : Coordinator) (kind : EventKind) (lease : String) : Coordinator :=
  match kind with
  | .acquired => { c with membership := .bound lease, gate := c.gate.named lease }
  | _ => c.deliver kind lease

/-- The coordinator when the bell has rung. -/
def rung (c : Coordinator) : Coordinator := { c with gate := c.gate.rung }

/-- With the bell it is the whole delivery. -/
theorem rung_received {c : Coordinator} {lease : String} :
    rung (received c .acquired lease) = c.deliver .acquired lease := rfl

/-- Where a new caller stands. One that finds the process bound has nothing to wait for. -/
def admitted (x : Lobby) (limit : Span) : Caller :=
  match x.coordinator.membership with
  | .bound lease => .answered (.ok lease)
  | .unbound =>
    .waiting x.coordinator.gateNumber .arriving limit (x.elapsed + limit.ceilMillis)

/-- Where a caller stands after a step at its gate. One that finds itself parked still looks at
the time. -/
def stepped (x : Lobby) (gate : Nat) (limit : Span) (deadline : Nat) (before : Wait) :
    (after : Wait) → Caller
  | .passed lease => .answered (.ok lease)
  | after =>
    if before = .parked ∧ after = .parked ∧ deadline ≤ x.elapsed then
      .answered (.error (.timeout limit))
    else .waiting gate after limit deadline

/-- The lobby after a step of a caller. -/
def step (x : Lobby) (k g : Nat) (wait : Wait) (limit : Span) (deadline : Nat) : Lobby :=
  let (gate, after) := (x.coordinator.gateAt g).step k wait
  { x with
    coordinator := x.coordinator.setGateAt g gate
    callers := x.callers.set k (x.stepped g limit deadline wait after) }

/-- The lobby after a move, unless the move is not possible. While an event is being delivered
there is no other one, nobody asks, and no time passes. -/
def turn? (x : Lobby) : Move → Option Lobby
  | .deliver kind lease =>
    if x.isRinging then none
    else some { x with
      coordinator := received x.coordinator kind lease
      isRinging := kind = .acquired
      events := x.events ++ [⟨x.elapsed, kind, lease⟩] }
  | .ring =>
    if x.isRinging then some { x with coordinator := rung x.coordinator, isRinging := false }
    else none
  | .arrive limit =>
    if x.isRinging then none else some { x with callers := x.callers ++ [x.admitted limit] }
  | .step k =>
    match x.callers[k]? with
    | some (.waiting gate wait limit deadline) => some (x.step k gate wait limit deadline)
    | some (.answered _) => some x
    | none => none
  | .pass millis =>
    if x.isRinging then none else some { x with elapsed := x.elapsed + millis }

/-- The lobby after some moves, unless one of them is not possible. -/
def run? : List Move → Lobby → Option Lobby
  | [], x => some x
  | m :: moves, x => (x.turn? m).bind (run? moves)

variable {x y z : Lobby} {m : Move} {k n g deadline : Nat} {limit : Span}

/-- The gates of a coordinator after an event, as far as there were any before. -/
theorem gateAt_received {c : Coordinator} (kind : EventKind) (lease : String)
    (hg : g ≤ c.past.length) :
    (received c kind lease).gateAt g =
      if kind = .acquired ∧ g = c.past.length then (c.gateAt g).named lease else c.gateAt g := by
  by_cases opens : kind = .acquired
  · subst opens
    rcases Nat.lt_or_eq_of_le hg with earlier | rfl
    · rw [if_neg (fun h => Nat.ne_of_lt earlier h.2)]
      exact (Coordinator.gateAt_of_lt (c := received c .acquired lease) earlier).trans
        (Coordinator.gateAt_of_lt earlier).symm
    · rw [if_pos ⟨rfl, rfl⟩, Coordinator.gateAt_of_le (Nat.le_refl _)]
      exact Coordinator.gateAt_of_le (c := received c .acquired lease) (Nat.le_refl _)
  · rw [if_neg (fun h => opens h.1), ← Coordinator.gateAt_deliver lease opens hg]
    cases kind with
    | acquired => contradiction
    | lost | released => rfl

theorem gateAt_rung {c : Coordinator} (hg : g ≤ c.past.length) :
    (rung c).gateAt g = if g = c.past.length then (c.gateAt g).rung else c.gateAt g := by
  rcases Nat.lt_or_eq_of_le hg with earlier | rfl
  · rw [if_neg (Nat.ne_of_lt earlier)]
    exact (Coordinator.gateAt_of_lt (c := rung c) earlier).trans
      (Coordinator.gateAt_of_lt earlier).symm
  · rw [if_pos rfl, Coordinator.gateAt_of_le (Nat.le_refl _)]
    exact Coordinator.gateAt_of_le (c := rung c) (Nat.le_refl _)

/-- How many gates there were before an event puts up another one. -/
theorem length_past_received (c : Coordinator) (kind : EventKind) (lease : String) :
    (received c kind lease).past.length =
      if kind = .acquired then c.past.length else c.past.length + 1 := by
  cases kind <;> simp [received, Coordinator.deliver]

/-! ## Moves by cases -/

/-- What a move can do. -/
inductive Change (x : Lobby) : Move → Lobby → Prop
  | deliver {kind : EventKind} {lease : String} (quiet : x.isRinging = false) :
    Change x (.deliver kind lease) { x with
      coordinator := received x.coordinator kind lease
      isRinging := kind = .acquired
      events := x.events ++ [⟨x.elapsed, kind, lease⟩] }
  | ring (ringing : x.isRinging = true) :
    Change x .ring { x with coordinator := rung x.coordinator, isRinging := false }
  | arrive {limit : Span} (quiet : x.isRinging = false) :
    Change x (.arrive limit) { x with callers := x.callers ++ [x.admitted limit] }
  | step {k g : Nat} {wait : Wait} {limit : Span} {deadline : Nat}
    (caller : x.callers[k]? = some (.waiting g wait limit deadline)) :
    Change x (.step k) (x.step k g wait limit deadline)
  | idle {k : Nat} {result : Except PoolError String}
    (caller : x.callers[k]? = some (.answered result)) : Change x (.step k) x
  | pass {millis : Nat} (quiet : x.isRinging = false) :
    Change x (.pass millis) { x with elapsed := x.elapsed + millis }

/-- A move does one of the things that moves can do. -/
theorem change_of_turn? (h : x.turn? m = some y) : x.Change m y := by
  cases m with
  | deliver kind lease =>
    simp only [turn?] at h
    split at h
    · contradiction
    · rename_i quiet
      exact Option.some.inj h ▸ .deliver (Bool.eq_false_iff.2 quiet)
  | ring =>
    simp only [turn?] at h
    split at h
    · rename_i ringing
      exact Option.some.inj h ▸ .ring ringing
    · contradiction
  | arrive limit =>
    simp only [turn?] at h
    split at h
    · contradiction
    · rename_i quiet
      exact Option.some.inj h ▸ .arrive (Bool.eq_false_iff.2 quiet)
  | step k =>
    simp only [turn?] at h
    split at h
    · rename_i caller
      exact Option.some.inj h ▸ .step caller
    · rename_i caller
      exact Option.some.inj h ▸ .idle caller
    · contradiction
  | pass millis =>
    simp only [turn?] at h
    split at h
    · contradiction
    · rename_i quiet
      exact Option.some.inj h ▸ .pass (Bool.eq_false_iff.2 quiet)

/-- A caller after a step of one of them: it is that one, or it stands where it stood. -/
theorem callers_step {j : Nat} {wait : Wait} :
    (x.step k g wait limit deadline).callers[j]? =
      if k = j ∧ k < x.callers.length then
        some (x.stepped g limit deadline wait ((x.coordinator.gateAt g).step k wait).2)
      else x.callers[j]? := by
  simp only [step, List.getElem?_set]
  by_cases same : k = j
  · subst same
    by_cases there : k < x.callers.length <;> simp [there]
  · simp [same]

theorem gateAt_step {h : Nat} {wait : Wait} (hg : g ≤ x.coordinator.past.length)
    (hh : h ≤ x.coordinator.past.length) :
    (x.step k g wait limit deadline).coordinator.gateAt h =
      if h = g then ((x.coordinator.gateAt g).step k wait).1 else x.coordinator.gateAt h :=
  Coordinator.gateAt_setGateAt hg hh

/-- No caller opens a gate. -/
theorem name_gateAt_step {h : Nat} {wait : Wait} (hg : g ≤ x.coordinator.past.length)
    (hh : h ≤ x.coordinator.past.length) :
    ((x.step k g wait limit deadline).coordinator.gateAt h).name =
      (x.coordinator.gateAt h).name := by
  rw [gateAt_step hg hh]
  split
  · rename_i same
    rw [Gate.name_step, same]
  · rfl

theorem name_gate_step {wait : Wait} (hg : g ≤ x.coordinator.past.length) :
    (x.step k g wait limit deadline).coordinator.gate.name = x.coordinator.gate.name := by
  have past : (x.step k g wait limit deadline).coordinator.past.length =
      x.coordinator.past.length := Coordinator.length_past_setGateAt
  have same : ((x.step k g wait limit deadline).coordinator.gateAt _).name = _ :=
    name_gateAt_step hg (Nat.le_refl _)
  rwa [Coordinator.gateAt_of_le (Nat.le_of_eq past), Coordinator.gateAt_of_le (Nat.le_refl _)]
    at same

/-! ## No wakeup is lost -/

/-- What holds of a lobby at all times. -/
structure IsKept (x : Lobby) : Prop where
  /-- The process is unbound exactly while the gate has not been opened. -/
  membership : x.coordinator.membership = .unbound ↔ x.coordinator.gate.name = none
  ringing : x.isRinging = true → x.coordinator.gate.name ≠ none
  asleep : ∀ g ≤ x.coordinator.past.length,
    (x.coordinator.gateAt g).name = none → (x.coordinator.gateAt g).woken = []
  /-- No waiter is forgotten. -/
  minds : ∀ (k g : Nat) (wait : Wait) (limit : Span) (deadline : Nat),
    x.callers[k]? = some (.waiting g wait limit deadline) → g ≤ x.coordinator.past.length ∧
      (x.coordinator.gateAt g).Minds k (x.isRinging = true ∧ g = x.coordinator.past.length) wait

/-- Nobody has asked, and nothing has been delivered. -/
theorem isKept_empty : IsKept {} where
  membership := Iff.intro (fun _ => rfl) fun _ => rfl
  ringing h := absurd h Bool.false_ne_true
  asleep _ _ _ := rfl
  minds k _ _ _ _ h := by simp at h

/-- A step at a gate that nobody has opened wakes nobody. -/
theorem woken_step_of_shut {gate : Gate} {wait : Wait} (asleep : gate.woken = []) :
    (gate.step k wait).1.woken = [] := by
  cases wait with
  | arriving => simp [Gate.step, asleep]
  | passed => exact asleep
  | registered =>
    simp only [Gate.step]
    split <;> exact asleep
  | parked => simp [Gate.step, asleep]

theorem stepped_of_ne_passed {before after : Wait} (waits : ∀ name, after ≠ .passed name) :
    x.stepped g limit deadline before after =
      if before = .parked ∧ after = .parked ∧ deadline ≤ x.elapsed then
        .answered (.error (.timeout limit))
      else .waiting g after limit deadline := by
  cases after with
  | passed name => exact absurd rfl (waits name)
  | arriving | registered | parked => rfl

/-- Where a caller stands that has not passed its gate, nor run out of time. -/
theorem eq_of_stepped {h deadline' : Nat} {limit' : Span} {before after move : Wait}
    (stands : x.stepped g limit deadline before after = .waiting h move limit' deadline') :
    (∀ name, after ≠ .passed name) ∧ h = g ∧ move = after ∧ limit' = limit ∧
      deadline' = deadline := by
  have waits : ∀ name, after ≠ .passed name := by
    rintro name rfl
    contradiction
  rw [stepped_of_ne_passed waits] at stands
  split at stands
  · contradiction
  · cases stands
    exact ⟨waits, rfl, rfl, rfl, rfl⟩

namespace IsKept

variable (K : x.IsKept)
include K

/-- An event opens the gate, and the bell is about to ring. -/
theorem opens {lease : String} (quiet : x.isRinging = false) :
    IsKept { x with
      coordinator := received x.coordinator .acquired lease
      isRinging := true
      events := x.events ++ [⟨x.elapsed, .acquired, lease⟩] } where
  membership := by simp [received, Gate.named]
  ringing _ := by simp [received, Gate.named]
  asleep g hg shut := by
    have hg : g ≤ x.coordinator.past.length := hg
    simp only [gateAt_received _ _ hg] at shut ⊢
    split at shut
    · simp [Gate.named] at shut
    · rename_i other
      rw [if_neg other]
      exact K.asleep g hg shut
  minds k g wait limit deadline hk := by
    obtain ⟨hg, minds⟩ := K.minds k g wait limit deadline hk
    refine ⟨hg, ?_⟩
    simp only [gateAt_received _ _ hg]
    split
    · rename_i now
      exact minds.named.of_imp fun _ => ⟨trivial, now.2⟩
    · exact minds.of_imp fun ringing => absurd ringing.1 (by simp [quiet])

/-- An event puts up a new gate, at which nobody is. -/
theorem ends {kind : EventKind} {lease : String} (ends : kind ≠ .acquired)
    (quiet : x.isRinging = false) :
    IsKept { x with
      coordinator := received x.coordinator kind lease
      isRinging := false
      events := x.events ++ [⟨x.elapsed, kind, lease⟩] } := by
  have past := length_past_received x.coordinator kind lease
  rw [if_neg ends] at past
  have fresh : (received x.coordinator kind lease).gate = {} ∧
      (received x.coordinator kind lease).membership = .unbound := by
    cases kind with
    | acquired => contradiction
    | lost | released => exact ⟨rfl, rfl⟩
  refine ⟨by simp [fresh], by simp, ?_, ?_⟩
  · intro g hg shut
    rcases Nat.lt_or_eq_of_le hg with earlier | rfl
    · have hg : g ≤ x.coordinator.past.length := by
        simp only [past] at earlier
        omega
      simp only [gateAt_received _ _ hg, ends, false_and, if_false] at shut ⊢
      exact K.asleep g hg shut
    · rw [Coordinator.gateAt_of_le (Nat.le_refl _)]
      simp only [fresh.1]
  · intro k g wait limit deadline hk
    obtain ⟨hg, minds⟩ := K.minds k g wait limit deadline hk
    refine ⟨by simp only [past]; omega, ?_⟩
    simp only [gateAt_received _ _ hg, ends, false_and, if_false]
    exact minds.of_imp fun ringing => absurd ringing.1 (by simp [quiet])

/-- The bell rings. -/
theorem rings (ringing : x.isRinging = true) :
    IsKept { x with coordinator := rung x.coordinator, isRinging := false } where
  membership := K.membership
  ringing h := absurd h Bool.false_ne_true
  asleep g hg shut := by
    have hg : g ≤ x.coordinator.past.length := hg
    simp only [gateAt_rung hg] at shut ⊢
    split at shut
    · rename_i now
      subst now
      rw [Coordinator.gateAt_of_le (Nat.le_refl _)] at shut
      exact absurd shut (K.ringing ringing)
    · rename_i other
      rw [if_neg other]
      exact K.asleep g hg shut
  minds k g wait limit deadline hk := by
    obtain ⟨hg, minds⟩ := K.minds k g wait limit deadline hk
    refine ⟨hg, ?_⟩
    simp only [gateAt_rung hg]
    split
    · exact minds.rung.of_imp False.elim
    · rename_i other
      exact minds.of_imp fun ringing => absurd ringing.2 other

/-- Somebody asks for the lease. -/
theorem admits : IsKept { x with callers := x.callers ++ [x.admitted limit] } := by
  refine ⟨K.membership, K.ringing, K.asleep, ?_⟩
  intro k g wait limit' deadline hk
  have hk : (x.callers ++ [x.admitted limit])[k]? = some (.waiting g wait limit' deadline) := hk
  rcases Nat.lt_trichotomy k x.callers.length with old | rfl | beyond
  · rw [List.getElem?_append_left old] at hk
    exact K.minds k g wait limit' deadline hk
  · rw [List.getElem?_concat_length] at hk
    simp only [admitted, Option.some.injEq] at hk
    split at hk
    · contradiction
    · cases hk
      exact ⟨Nat.le_refl _, .arriving⟩
  · rw [List.getElem?_eq_none (by simp; omega)] at hk
    contradiction

/-- It is the turn of a caller. -/
theorem steps {wait : Wait} (caller : x.callers[k]? = some (.waiting g wait limit deadline)) :
    (x.step k g wait limit deadline).IsKept := by
  obtain ⟨hg, minds⟩ := K.minds k g wait limit deadline caller
  have past : (x.step k g wait limit deadline).coordinator.past.length =
      x.coordinator.past.length := Coordinator.length_past_setGateAt
  have gate : (x.step k g wait limit deadline).coordinator.gate.name = _ := name_gate_step hg
  refine ⟨?_, ?_, ?_, ?_⟩
  · rw [gate]
    exact Iff.trans (by simp [step]) K.membership
  · rw [gate]
    exact K.ringing
  · intro h hh shut
    rw [past] at hh
    rw [gateAt_step hg hh] at shut ⊢
    split
    · rename_i same
      subst same
      rw [if_pos rfl, Gate.name_step] at shut
      exact woken_step_of_shut (K.asleep h hh shut)
    · rename_i other
      rw [if_neg other] at shut
      exact K.asleep h hh shut
  · intro j h move limit' deadline' hj
    rw [callers_step] at hj
    rw [past]
    split at hj
    · rename_i own
      obtain rfl := own.1
      obtain ⟨waits, rfl, rfl, -, -⟩ := eq_of_stepped (Option.some.inj hj)
      refine ⟨hg, ?_⟩
      rw [gateAt_step hg hg, if_pos rfl]
      rcases minds.step with ⟨name, -, passed⟩ | minds
      · rw [passed] at waits
        exact absurd rfl (waits name)
      · exact minds
    · rename_i other
      have other : k ≠ j := fun same => other ⟨same, (List.getElem?_eq_some_iff.1 caller).1⟩
      obtain ⟨hh, stays⟩ := K.minds j h move limit' deadline' hj
      refine ⟨hh, ?_⟩
      rw [gateAt_step hg hh]
      split
      · rename_i same
        subst same
        exact stays.step_of_ne other
      · exact stays

/-- **No wakeup is lost**, whatever happens. -/
theorem turn (h : x.turn? m = some y) : y.IsKept := by
  cases change_of_turn? h with
  | @deliver kind lease quiet =>
    by_cases opens : kind = .acquired
    · subst opens
      exact K.opens quiet
    · simp only [opens, decide_false]
      exact K.ends opens quiet
  | ring ringing => exact K.rings ringing
  | arrive => exact K.admits
  | step caller => exact K.steps caller
  | idle => exact K
  | pass => exact ⟨K.membership, K.ringing, K.asleep, K.minds⟩

/-- And so it is after any moves. -/
theorem run {moves : List Move} (h : x.run? moves = some y) : y.IsKept := by
  induction moves generalizing x with
  | nil =>
    obtain rfl := Option.some.inj h
    exact K
  | cons m moves ih =>
    obtain ⟨x', turn, rest⟩ := Option.bind_eq_some_iff.1 h
    exact ih (K.turn turn) rest

end IsKept

/-! ## What moves leave alone -/

/-- A move keeps what gates have been opened with, and whoever has been woken stays so until it
moves itself. -/
theorem gateAt_of_turn (K : x.IsKept) (h : x.turn? m = some y)
    (hg : g ≤ x.coordinator.past.length) :
    g ≤ y.coordinator.past.length ∧
      (∀ name, (x.coordinator.gateAt g).name = some name →
        (y.coordinator.gateAt g).name = some name) ∧
      (m ≠ .step k → k ∈ (x.coordinator.gateAt g).woken →
        k ∈ (y.coordinator.gateAt g).woken) := by
  cases change_of_turn? h with
  | @deliver kind lease quiet =>
    simp only [gateAt_received _ _ hg, length_past_received]
    refine ⟨by split <;> omega, ?_, ?_⟩
    · intro name opened
      split
      · simp [Gate.named, opened]
      · exact opened
    · intro _ called
      split <;> exact called
  | ring ringing =>
    refine ⟨hg, ?_, ?_⟩
    · intro name opened
      simp only [gateAt_rung hg]
      split <;> exact opened
    · intro _ called
      simp only [gateAt_rung hg]
      split
      · exact List.mem_append_left _ called
      · exact called
  | arrive => exact ⟨hg, fun _ opened => opened, fun _ called => called⟩
  | @step j here wait limit deadline caller =>
    have there := (K.minds j here wait limit deadline caller).1
    refine ⟨?_, ?_, ?_⟩
    · exact (Coordinator.length_past_setGateAt (c := x.coordinator)).symm ▸ hg
    · intro name opened
      rwa [name_gateAt_step there hg]
    · intro other called
      have other : j ≠ k := fun same => other (same ▸ rfl)
      rw [gateAt_step there hg]
      split
      · rename_i met
        subst met
        exact (Gate.mem_step_of_ne _ _ other).2.2 called
      · exact called
  | idle => exact ⟨hg, fun _ opened => opened, fun _ called => called⟩
  | pass => exact ⟨hg, fun _ opened => opened, fun _ called => called⟩

/-- A gate that is open keeps its name. -/
theorem name_gateAt_of_run {moves : List Move} {name : String} (K : x.IsKept)
    (h : x.run? moves = some y) (hg : g ≤ x.coordinator.past.length)
    (opened : (x.coordinator.gateAt g).name = some name) :
    (y.coordinator.gateAt g).name = some name := by
  induction moves generalizing x with
  | nil =>
    obtain rfl := Option.some.inj h
    exact opened
  | cons m moves ih =>
    obtain ⟨x', turn, rest⟩ := Option.bind_eq_some_iff.1 h
    obtain ⟨there, keeps, -⟩ := gateAt_of_turn (k := 0) K turn hg
    exact ih (K.turn turn) rest there (keeps name opened)

/-- Time does not run backwards, and no event is taken back. -/
theorem elapsed_le_of_turn (h : x.turn? m = some y) :
    x.elapsed ≤ y.elapsed ∧ x.events <+: y.events := by
  cases change_of_turn? h with
  | deliver => exact ⟨Nat.le_refl _, List.prefix_append _ _⟩
  | pass => exact ⟨Nat.le_add_right _ _, List.prefix_refl _⟩
  | ring | arrive | step | idle => exact ⟨Nat.le_refl _, List.prefix_refl _⟩

theorem elapsed_le_of_run {moves : List Move} (h : x.run? moves = some y) :
    x.elapsed ≤ y.elapsed ∧ x.events <+: y.events := by
  induction moves generalizing x with
  | nil =>
    obtain rfl := Option.some.inj h
    exact ⟨Nat.le_refl _, List.prefix_refl _⟩
  | cons m moves ih =>
    obtain ⟨x', turn, rest⟩ := Option.bind_eq_some_iff.1 h
    obtain ⟨time, events⟩ := elapsed_le_of_turn turn
    exact ⟨Nat.le_trans time (ih rest).1, events.trans (ih rest).2⟩

/-- A caller stands where it stood, unless it moves itself. -/
theorem callers_of_turn {caller : Caller} (h : x.turn? m = some y) (other : m ≠ .step k)
    (stands : x.callers[k]? = some caller) : y.callers[k]? = some caller := by
  cases change_of_turn? h with
  | deliver | ring | idle | pass => exact stands
  | arrive =>
    exact (List.getElem?_append_left (List.getElem?_eq_some_iff.1 stands).1).trans stands
  | @step j =>
    rw [callers_step, if_neg]
    · exact stands
    · rintro ⟨rfl, -⟩
      exact other rfl

/-- Whoever has got an answer keeps it. -/
theorem answered_of_run {moves : List Move} {result : Except PoolError String}
    (h : x.run? moves = some y) (answer : x.callers[k]? = some (.answered result)) :
    y.callers[k]? = some (.answered result) := by
  induction moves generalizing x with
  | nil =>
    obtain rfl := Option.some.inj h
    exact answer
  | cons m moves ih =>
    obtain ⟨x', turn, rest⟩ := Option.bind_eq_some_iff.1 h
    refine ih rest ?_
    by_cases own : m = .step k
    · subst own
      simp only [turn?, answer] at turn
      obtain rfl := Option.some.inj turn
      exact answer
    · exact callers_of_turn turn own answer

end Lobby

end LeasePool
