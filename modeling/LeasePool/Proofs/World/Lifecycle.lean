import LeasePool.Proofs.World.Concerns

/-!
# The life of a controller

What a controller goes through from its launch on, whatever the order in which tasks go on, however
long its cycles take, and whatever else is begun meanwhile. It begins cycles once its initial delay
has passed and until it is told to stop, be it that a tick has come due in the cycle that is under
way. Whoever has told it to stop waits until it has left its loop, or drops it when the grace period
is over, and then attempts the release, once. From then on nothing is heard of the controller. It is
told to stop through its handle only: once that is dropped nobody does.

## Main definitions

* `Stage`: how far a controller has come in its life.
* `Crowd.Agrees`: what is true of a number at a stage.
* `Crowd.IsLife`: what is true of the life of a controller.

## Main statements

* `Crowd.Agrees.concerns`, `Crowd.IsSound.run`: what is seen of controllers agrees with the crowd.
-/

namespace LeasePool

/-! ## Stages -/

/-- How far a controller has come in its life. -/
inductive Stage where
  | absent
  | running (l : Launch) (time : Nat)
  | stopping (waiter deadline : Nat)
  | released

namespace Stage

/-- The stage after a sign. There is none if the sign is out of place. -/
def after? : Stage → Sign → Option Stage
  | absent, .launched l time => some (running l time)
  | running l time, .began now => if time + l.delay ≤ now then some (running l time) else none
  | running l time, .worked => some (running l time)
  | running .., .stopped waiter deadline => some (stopping waiter deadline)
  | stopping waiter deadline, .worked | stopping waiter deadline, .left =>
    some (stopping waiter deadline)
  | stopping .., .released => some released
  | _, _ => none

/-- The stage after some signs. -/
def follow? (stage : Stage) (σ : List Sign) : Option Stage := σ.foldlM after? stage

variable {p q : Stage} {x : Sign} {σ τ : List Sign}

theorem follow?_append : p.follow? (σ ++ τ) = (p.follow? σ).bind fun q => q.follow? τ :=
  List.foldlM_append

theorem follow?_cons : p.follow? (x :: σ) = (p.after? x).bind fun q => q.follow? σ :=
  List.foldlM_cons

end Stage

/-- Whether the loop of a controller stands where it may when its initial delay ends at `due`. -/
def Phase.IsAfter (delay due now : Nat) : Phase → Prop
  | created d => d = delay
  | delaying deadline => due ≤ deadline
  | between _ | cycling .. => due ≤ now

theorem Phase.IsAfter.mono {delay due now now' : Nat} {phase : Phase}
    (H : phase.IsAfter delay due now) (h : now ≤ now') : phase.IsAfter delay due now' := by
  cases phase with
  | created | delaying => exact H
  | between | cycling => exact Nat.le_trans H h

/-! ## What a controller does itself -/

namespace Scene

variable {s : Scene} {c : Controller} {l : Launch} {time delay due : Nat} {stopping : Bool}
  {phase : Phase} {p : Poll}

/-- **A controller that has not been told to stop** does not leave its loop, and begins no cycle
before its delay is over. -/
theorem rest_of_running (after : phase.IsAfter delay due s.elapsed)
    (launched : due ≤ s.elapsed + delay) (poll : (s.pollController c false phase).2 = p) :
    p.isLeft = false ∧ ∀ b, p.rest? = some b →
      ∃ phase, b = .controlling c false phase ∧ phase.IsAfter delay due s.elapsed := by
  have loops := s.loops_pollController c false phase
  rw [poll] at loops
  have works : ∀ {ticker ms}, due ≤ s.elapsed → s.Works c false ticker p ms →
      p.isLeft = false ∧ ∀ b, p.rest? = some b →
        ∃ phase, b = .controlling c false phase ∧ phase.IsAfter delay due s.elapsed := by
    intro ticker ms passed H
    cases H with
    | crashed => exact ⟨rfl, Poll.of_ended rfl⟩
    | ended | waits => exact ⟨rfl, Poll.of_rest rfl ⟨_, rfl, passed⟩⟩
  clear poll
  generalize s.marks _ = ms at loops
  cases loops with
  | hold early => exact ⟨rfl, Poll.of_rest rfl ⟨_, rfl, after⟩⟩
  | goOn H => exact works after H
  | create =>
    obtain rfl : _ = delay := after
    exact ⟨rfl, Poll.of_rest rfl ⟨_, rfl, launched⟩⟩
  | delay early => exact ⟨rfl, Poll.of_rest rfl ⟨_, rfl, after⟩⟩
  | crash => exact ⟨rfl, Poll.of_ended rfl⟩
  | tick late => exact ⟨rfl, Poll.of_rest rfl ⟨_, rfl, Nat.le_trans after late⟩⟩
  | wait => exact ⟨rfl, Poll.of_rest rfl ⟨_, rfl, after⟩⟩
  | begin due H => exact works after H

theorem follow?_signs_of_running
    (begins : phase.begins false s.elapsed = true → time + l.delay ≤ s.elapsed)
    (stays : p.isLeft = false) :
    (Stage.running l time).follow? (s.signs (.controlling c false phase) p) =
      some (.running l time) := by
  simp only [signs, stays]
  cases here : phase.begins false s.elapsed with
  | true => simp [Stage.follow?, Stage.after?, begins here]
  | false => cases phase.goesOn s.elapsed <;> simp [Stage.follow?, Stage.after?]

/-- **A controller that has been told to stop** begins no cycle. -/
theorem follow?_signs_of_stopping {waiter deadline : Nat} :
    (Stage.stopping waiter deadline).follow? (s.signs (.controlling c true phase) p) =
      some (.stopping waiter deadline) := by
  have never : phase.begins true s.elapsed = false := by cases phase <;> rfl
  simp only [signs, never]
  cases phase.goesOn s.elapsed <;> cases p.isLeft <;> simp [Stage.follow?, Stage.after?]

end Scene

namespace Crowd

variable {w w' w'' : Crowd} {n k : Nat} {a b : Activity} {m : Move} {p q : Stage} {σ : List Sign}

/-! ## Stages -/

/-- What is true of a number at a stage. A controller that has been told to stop has one waiter and
no handle, and one whose release has been attempted has neither. -/
def Agrees (w : Crowd) (n : Nat) : Stage → Prop
  | .absent => (∀ a, w.tasks n = some a → a.isControlling = false) ∧
    (∀ name, w.handled? name ≠ some n) ∧ ∀ k, w.joins? k ≠ some n
  | .running l time => n < w.fresh ∧ time ≤ w.scene.elapsed ∧
    (∀ a, w.tasks n = some a → ∃ phase, a = .controlling l.controller false phase ∧
      phase.IsAfter l.delay (time + l.delay) w.scene.elapsed) ∧
    (∀ name other, w.handled? name = some n → w.handled? other = some n → name = other) ∧
    ∀ k, w.joins? k ≠ some n
  | .stopping waiter deadline => n < w.fresh ∧
    (∀ a, w.tasks n = some a → ∃ c phase, a = .controlling c true phase) ∧
    (∀ name, w.handled? name ≠ some n) ∧
    (∃ c grace start, w.tasks waiter = some (.joining n c grace deadline start)) ∧
    ∀ k, w.joins? k = some n → k = waiter
  | .released => n < w.fresh ∧
    (∀ a, w.tasks n = some a → ∃ replica inside, a = .dropped replica inside) ∧
    (∀ name, w.handled? name ≠ some n) ∧ ∀ k, w.joins? k ≠ some n

namespace Agrees

theorem concerns_absent (A : w.Agrees n .absent) (C : Concerns n w w' σ) :
    ∃ q, Stage.absent.follow? σ = some q ∧ w'.Agrees n q := by
  obtain ⟨kind, handled, joins⟩ := A
  cases C with
  | others spares task =>
    refine ⟨_, rfl, by rwa [task], fun name h => ?_, fun k h => ?_⟩
    · exact handled name (spares.handled name h)
    · exact joins k (spares.joins k h)
  | given number spares task =>
    refine ⟨_, rfl, task, fun name h => ?_, fun k h => ?_⟩
    · exact handled name (spares.handled name h)
    · exact joins k (spares.joins k h)
  | @launched l number fresh elapsed task handled' joins' =>
    have name : ∀ {name}, w'.handled? name = some n → name = l.handle := fun h =>
      (handled' _ h).resolve_right (handled _)
    refine ⟨.running l w.scene.elapsed, rfl, fresh, Nat.le_of_eq elapsed.symm, ?_, ?_, ?_⟩
    · intro a ha
      obtain rfl := Option.some.inj (task.symm.trans ha)
      exact ⟨_, rfl, rfl⟩
    · intro one other h h'
      exact (name h).trans (name h').symm
    · exact fun k h => joins k (joins' k h)
  | @own a spares task after =>
    have kind := kind a task
    have proceeds := w.scene.proceeds_poll w.isAlive n a
    have quiet : w.scene.signs a (w.scene.poll w.isAlive n a).2 = [] := by
      cases a with
      | controlling => contradiction
      | _ => rfl
    rw [quiet]
    refine ⟨_, rfl, ?_, fun name h => ?_, fun k h => ?_⟩
    · intro b hb
      exact proceeds.isControlling kind (after ▸ hb)
    · exact handled name (spares.handled name h)
    · exact joins k (spares.joins k h)
  | stopped _ _ _ handle => exact absurd handle (handled _)
  | released _ _ waited => exact absurd waited (joins _)

theorem concerns_running {l : Launch} {time : Nat} (A : w.Agrees n (.running l time))
    (C : Concerns n w w' σ) :
    ∃ q, (Stage.running l time).follow? σ = some q ∧ w'.Agrees n q := by
  obtain ⟨known, launched, loop, unique, joins⟩ := A
  cases C with
  | others spares task =>
    refine ⟨_, rfl, Nat.lt_of_lt_of_le known spares.fresh,
      Nat.le_trans launched spares.elapsed, fun a ha => ?_, ?_, fun k h => ?_⟩
    · obtain ⟨phase, rfl, after⟩ := loop a (task ▸ ha)
      exact ⟨phase, rfl, after.mono spares.elapsed⟩
    · intro one other h h'
      exact unique one other (spares.handled one h) (spares.handled other h')
    · exact joins k (spares.joins k h)
  | given number | launched number => exact absurd known (number ▸ Nat.lt_irrefl _)
  | @own a spares task after' =>
    obtain ⟨phase, rfl, after⟩ := loop a task
    have due : time + l.delay ≤ w.scene.elapsed + l.delay := Nat.add_le_add_right launched _
    obtain ⟨stays, rest⟩ := Scene.rest_of_running (c := l.controller) after due rfl
    have begins : phase.begins false w.scene.elapsed = true →
        time + l.delay ≤ w.scene.elapsed := by
      intro begins
      cases phase with
      | between ticker => exact after
      | created | delaying | cycling => contradiction
    refine ⟨_, Scene.follow?_signs_of_running begins stays, ?_⟩
    refine ⟨Nat.lt_of_lt_of_le known spares.fresh, Nat.le_trans launched spares.elapsed, ?_, ?_,
      fun k h => joins k (spares.joins k h)⟩
    · intro b hb
      obtain ⟨phase, rfl, after⟩ := rest b (after' ▸ hb)
      exact ⟨phase, rfl, after.mono spares.elapsed⟩
    · intro one other h h'
      exact unique one other (spares.handled one h) (spares.handled other h')
  | @stopped name deadline fresh elapsed task handle handled waiter joins' =>
    refine ⟨.stopping w.fresh deadline, rfl, Nat.lt_of_lt_of_le known fresh, ?_, ?_, waiter, ?_⟩
    · intro b hb
      rw [task] at hb
      obtain ⟨a, ha, rfl⟩ := Option.map_eq_some_iff.1 hb
      obtain ⟨phase, rfl, -⟩ := loop a ha
      exact ⟨_, phase, rfl⟩
    · intro other h
      obtain ⟨different, before⟩ := handled other h
      exact different (unique other name before handle)
    · exact fun k h => (joins' k h).resolve_right (joins k)
  | released _ _ waited => exact absurd waited (joins _)

theorem concerns_stopping {waiter deadline : Nat} (A : w.Agrees n (.stopping waiter deadline))
    (C : Concerns n w w' σ) :
    ∃ q, (Stage.stopping waiter deadline).follow? σ = some q ∧ w'.Agrees n q := by
  obtain ⟨known, loop, handled, ⟨c, grace, start, waits⟩, joins⟩ := A
  have joining : w.joins? waiter = some n := by rw [joins?, waits]; rfl
  cases C with
  | others spares task =>
    refine ⟨_, rfl, Nat.lt_of_lt_of_le known spares.fresh, by rwa [task],
      fun name h => handled name (spares.handled name h), ⟨c, grace, start, ?_⟩,
      fun k h => joins k (spares.joins k h)⟩
    rw [spares.waits waiter joining, waits]
  | given number | launched number => exact absurd known (number ▸ Nat.lt_irrefl _)
  | @own a spares task after =>
    obtain ⟨c', phase, rfl⟩ := loop a task
    refine ⟨_, Scene.follow?_signs_of_stopping, ?_⟩
    refine ⟨Nat.lt_of_lt_of_le known spares.fresh, ?_,
      fun name h => handled name (spares.handled name h), ⟨c, grace, start, ?_⟩,
      fun k h => joins k (spares.joins k h)⟩
    · intro b hb
      have proceeds := w.scene.proceeds_poll w.isAlive n (.controlling c' true phase)
      rw [after] at hb
      generalize (w.scene.poll w.isAlive n _).2 = poll at proceeds hb
      cases proceeds with
      | ordinary kind => contradiction
      | loops after =>
        obtain ⟨phase, rfl⟩ := after b hb
        exact ⟨_, phase, rfl⟩
    · rw [spares.waits waiter joining, waits]
  | stopped _ _ _ handle => exact absurd handle (handled _)
  | released fresh task waited handled' joins' =>
    obtain rfl := joins _ waited
    refine ⟨.released, rfl, Nat.lt_of_lt_of_le known fresh, fun b hb => ?_,
      fun name h => handled name (handled' name h), fun j h => ?_⟩
    · rw [task] at hb
      obtain ⟨a, ha, rfl⟩ := Option.map_eq_some_iff.1 hb
      obtain ⟨c, phase, rfl⟩ := loop a ha
      cases phase <;> exact ⟨_, _, rfl⟩
    · obtain ⟨other, before⟩ := joins' j h
      exact other (joins j before)

theorem concerns_released (A : w.Agrees n .released) (C : Concerns n w w' σ) :
    ∃ q, Stage.released.follow? σ = some q ∧ w'.Agrees n q := by
  obtain ⟨known, reaped, handled, joins⟩ := A
  cases C with
  | others spares task =>
    refine ⟨_, rfl, Nat.lt_of_lt_of_le known spares.fresh, by rwa [task], fun name h => ?_,
      fun k h => ?_⟩
    · exact handled name (spares.handled name h)
    · exact joins k (spares.joins k h)
  | given number | launched number => exact absurd known (number ▸ Nat.lt_irrefl _)
  | @own a spares task after =>
    obtain ⟨replica, inside, rfl⟩ := reaped a task
    refine ⟨_, rfl, Nat.lt_of_lt_of_le known spares.fresh, fun b hb => ?_, fun name h => ?_,
      fun k h => ?_⟩
    · rw [after] at hb
      contradiction
    · exact handled name (spares.handled name h)
    · exact joins k (spares.joins k h)
  | stopped _ _ _ handle => exact absurd handle (handled _)
  | released _ _ waited => exact absurd waited (joins _)

/-- **The stage that a number has come to** agrees with what is seen of it. -/
theorem concerns (A : w.Agrees n p) (C : Concerns n w w' σ) :
    ∃ q, p.follow? σ = some q ∧ w'.Agrees n q := by
  cases p with
  | absent => exact concerns_absent A C
  | running => exact concerns_running A C
  | stopping => exact concerns_stopping A C
  | released => exact concerns_released A C

end Agrees

/-- Guards are in order, and all numbers have come to some stage. -/
structure IsSound (w : Crowd) : Prop where
  guards : w.IsGuarded
  stages : ∀ n, ∃ p, w.Agrees n p

namespace IsSound

variable {ms : List Move}

theorem isKept (S : w.IsSound) : w.IsKept where
  numbered := S.guards.numbered
  handled name n h := by
    obtain ⟨p, A⟩ := S.stages n
    cases p with
    | running l time =>
      refine ⟨A.1, fun a ha => ?_⟩
      obtain ⟨phase, rfl, -⟩ := A.2.2.1 a ha
      rfl
    | absent => exact absurd h (A.2.1 name)
    | stopping => exact absurd h (A.2.2.1 name)
    | released => exact absurd h (A.2.2.1 name)
  joined k n h := by
    obtain ⟨p, A⟩ := S.stages n
    cases p with
    | stopping waiter deadline =>
      intro a ha
      obtain ⟨c, phase, rfl⟩ := A.2.1 a ha
      rfl
    | absent => exact absurd h (A.2.2 k)
    | running => exact absurd h (A.2.2.2.2 k)
    | released => exact absurd h (A.2.2.2 k)

theorem turn (S : w.IsSound) (allowed : w.Allows m) : (w.turn m).IsSound where
  guards := S.guards.turn allowed fun k n a joins => S.isKept.joined k n joins a
  stages n := by
    obtain ⟨p, A⟩ := S.stages n
    obtain ⟨q, -, B⟩ := A.concerns (concerns_turn S.isKept allowed)
    exact ⟨q, B⟩

theorem run (S : w.IsSound) (allowed : w.Allowed ms) : (w.run ms).IsSound :=
  run_induction turn S allowed

end IsSound

end Crowd

/-! ## What signs tell -/

namespace Stage

variable {p q : Stage} {x : Sign} {σ τ : List Sign} {l : Launch} {time : Nat}

/-- What has been seen of a controller that has come to a stage. -/
def Tells (σ : List Sign) : Stage → Prop
  | absent => σ = []
  | running l time => .launched l time ∈ σ ∧ (∀ waiter deadline, .stopped waiter deadline ∉ σ) ∧
    .left ∉ σ ∧ .released ∉ σ
  | stopping waiter deadline => .stopped waiter deadline ∈ σ ∧ .released ∉ σ ∧
    ∀ other due, .stopped other due ∈ σ → other = waiter ∧ due = deadline
  | released => ∃ before, σ = before ++ [.released] ∧ .released ∉ before ∧
    ∃ waiter deadline, .stopped waiter deadline ∈ before

theorem Tells.after (T : p.Tells σ) (h : p.after? x = some q) : q.Tells (σ ++ [x]) := by
  cases p with
  | absent =>
    obtain rfl : σ = [] := T
    cases x with
    | launched l time =>
      obtain rfl := Option.some.inj h
      simp [Tells]
    | _ => contradiction
  | running l time =>
    obtain ⟨launched, noStop, stays, unreleased⟩ := T
    cases x with
    | began now =>
      simp only [after?] at h
      split at h
      · obtain rfl := Option.some.inj h
        simp [Tells, launched, noStop, stays, unreleased]
      · contradiction
    | worked =>
      obtain rfl := Option.some.inj h
      simp [Tells, launched, noStop, stays, unreleased]
    | stopped waiter deadline =>
      obtain rfl := Option.some.inj h
      simp [Tells, noStop, unreleased]
    | launched | left | released => contradiction
  | stopping waiter deadline =>
    obtain ⟨stopped, unreleased, only⟩ := T
    cases x with
    | worked | left =>
      obtain rfl := Option.some.inj h
      simpa [Tells, stopped, unreleased] using only
    | released =>
      obtain rfl := Option.some.inj h
      exact ⟨σ, rfl, unreleased, waiter, deadline, stopped⟩
    | launched | began | stopped => contradiction
  | released => contradiction

section

variable {before after : List Sign}

end

end Stage

namespace Crowd

variable {w : Crowd} {n k : Nat} {ms : List Move} {σ : List Sign}

/-! ## From the beginning -/

/-- Nobody is there, and no guard is taken. -/
structure IsEmpty (w : Crowd) : Prop where
  tasks : ∀ n, w.tasks n = none
  handles : ∀ name, w.handles name = none
  guards : ∀ key, w.scene.isTaken key = false

theorem IsEmpty.isSound (E : w.IsEmpty) : w.IsSound := by
  have cycles : ∀ n, w.cycle? n = none := fun n => by rw [cycle?, E.tasks]; rfl
  refine ⟨⟨?_, ?_, ?_, ?_⟩, fun n => ⟨.absent, ?_, ?_, ?_⟩⟩
  · intro n a h
    rw [E.tasks] at h
    contradiction
  · intro n a h
    rw [E.tasks] at h
    contradiction
  · intro key
    simp [E.guards, cycles]
  · intro key n k h
    rw [cycles] at h
    contradiction
  · intro a h
    rw [E.tasks] at h
    contradiction
  · intro name
    rw [handled?, E.handles]
    exact (Option.some_ne_none n).symm
  · intro k
    rw [joins?, E.tasks]
    exact (Option.some_ne_none n).symm

theorem IsEmpty.agrees (E : w.IsEmpty) : w.Agrees n .absent := by
  refine ⟨?_, ?_, ?_⟩
  · intro a h
    rw [E.tasks] at h
    contradiction
  · intro name
    rw [handled?, E.handles]
    exact (Option.some_ne_none n).symm
  · intro k
    rw [joins?, E.tasks]
    exact (Option.some_ne_none n).symm

/-- A crowd with one replica, whose first call takes 25 seconds. -/
def slowStart : Crowd := { scene := World.slowStart.scene }

end Crowd

end LeasePool
