import LeasePool.Proofs.World.Tasks

/-!
# The pace of a controller

When the cycles of a controller begin, whatever else goes on in the world and however long the
cycles take. The first tick is due after the initial delay. A cycle begins when the next tick is
due, or when the cycle before it has ended if that is later: a tick that comes due during a cycle
is not dropped, it starts the next cycle late. What is dropped are the ticks after that one, when
a cycle has begun so late: the next tick is then at the next multiple of the interval.

## Main definitions

* `Mark`, `World.marks`: a cycle begins or ends in what happens next.
* `World.Chronicle`: a run, with the marks that a controller leaves.
* `Pace`: what the beginnings and ends of cycles so far say about the next one.
* `World.IsPaced`: a controller keeps its pace.

## Main statements

* `World.IsPaced.next`: whatever happens, a controller keeps its pace.
-/

namespace LeasePool

namespace Ticker

/-- The tick after the next one is some periods later. -/
theorem exists_deadline_after {t : Ticker} {now : Nat} (due : t.isDue now = true) :
    ∃ k, (t.after now).deadline = t.deadline + k * t.period := by
  have due : t.deadline ≤ now := of_decide_eq_true due
  unfold after
  split
  · refine ⟨(now - t.deadline) / t.period + 1, ?_⟩
    have parts := Nat.div_add_mod (now - t.deadline) t.period
    change now + t.period - (now - t.deadline) % t.period = _
    rw [Nat.add_mul, Nat.one_mul, Nat.mul_comm]
    omega
  · exact ⟨1, by rw [Nat.one_mul]⟩

@[simp] theorem period_after {t : Ticker} {now : Nat} : (t.after now).period = t.period := by
  unfold after
  split <;> rfl

end Ticker

/-! ## Marks -/

/-- A cycle of a controller begins or ends. -/
inductive Mark where
  | began (time : Nat)
  | ended (time : Nat)
  deriving DecidableEq, Repr

/-- Whether a task waits. -/
def Poll.isBlocked : Poll → Bool
  | blocked .. => true
  | _ => false

/-- Whether a controller begins a cycle when it goes on. -/
def Phase.begins (stopping : Bool) (now : Nat) : Phase → Bool
  | between ticker => !stopping && ticker.isDue now
  | _ => false

/-- Whether it goes on with one. -/
def Phase.goesOn (now : Nat) : Phase → Bool
  | cycling _ deadline _ => deadline ≤ now
  | _ => false

/-- The marks that a task leaves when it goes on. A cycle that goes on ends unless it has to wait,
be it that it cannot go on at all. -/
def Scene.marks (s : Scene) : Activity → List Mark
  | .controlling c stopping phase =>
    let begins := phase.begins stopping s.elapsed
    let works := begins || phase.goesOn s.elapsed
    let ends := works && !(s.pollController c stopping phase).2.isBlocked
    (if begins then [.began s.elapsed] else []) ++ if ends then [.ended s.elapsed] else []
  | _ => []

/-- What comes of a cycle that goes on. -/
inductive Scene.Works (s : Scene) (c : Controller) (stopping : Bool) (ticker : Ticker) :
    Poll → List Mark → Prop
  | ended : Works s c stopping ticker (.again (.controlling c stopping (.between ticker)))
      [.ended s.elapsed]
  | crashed : Works s c stopping ticker (.ended .crash) [.ended s.elapsed]
  | waits {deadline : Nat} {run : Running Unit} : Works s c stopping ticker
      (.blocked deadline (.controlling c stopping (.cycling ticker deadline run))) []

/-- What a controller does when it goes on. -/
inductive Scene.Loops (s : Scene) (c : Controller) : Bool → Phase → Poll → List Mark → Prop
  | hold {stopping : Bool} {ticker : Ticker} {deadline : Nat} {run : Running Unit}
    (early : s.elapsed < deadline) : Loops s c stopping (.cycling ticker deadline run)
      (.blocked deadline (.controlling c stopping (.cycling ticker deadline run))) []
  | goOn {stopping : Bool} {ticker : Ticker} {deadline : Nat} {run : Running Unit} {poll : Poll}
    {ms : List Mark} (works : s.Works c stopping ticker poll ms) :
    Loops s c stopping (.cycling ticker deadline run) poll ms
  | stop {phase : Phase} : Loops s c true phase (.ended .nothing) []
  | create {delay : Nat} : Loops s c false (.created delay)
      (.again (.controlling c false (.delaying (s.elapsed + delay)))) []
  | delay {deadline : Nat} (early : s.elapsed < deadline) : Loops s c false (.delaying deadline)
      (.blocked deadline (.controlling c false (.delaying deadline))) []
  /-- There is no such interval. -/
  | crash {deadline : Nat} : Loops s c false (.delaying deadline) (.ended .crash) []
  | tick {deadline : Nat} (late : deadline ≤ s.elapsed) : Loops s c false (.delaying deadline)
      (.again (.controlling c false (.between ⟨s.elapsed, c.interval⟩))) []
  | wait {ticker : Ticker} : Loops s c false (.between ticker)
      (.blocked ticker.deadline (.controlling c false (.between ticker))) []
  | begin {ticker : Ticker} {poll : Poll} {ms : List Mark} (due : ticker.isDue s.elapsed = true)
    (works : s.Works c false (ticker.after s.elapsed) poll ms) :
    Loops s c false (.between ticker) poll (.began s.elapsed :: ms)

theorem Scene.works_pollCycle (s : Scene) (c : Controller) (stopping : Bool) (ticker : Ticker)
    (run : Running Unit) :
    let poll := (s.pollCycle c stopping ticker run).2
    s.Works c stopping ticker poll (if poll.isBlocked = false then [.ended s.elapsed] else []) := by
  intro poll
  subst poll
  unfold pollCycle
  cases s.resume run with
  | mk _ progress =>
    cases progress with
    | ended result => exact .ended
    | crashed => exact .crashed
    | waiting millis run => exact .waits

/-- **What a controller does when it goes on**, and the marks that it leaves. -/
theorem Scene.loops_pollController (s : Scene) (c : Controller) (stopping : Bool)
    (phase : Phase) :
    s.Loops c stopping phase (s.pollController c stopping phase).2
      (s.marks (.controlling c stopping phase)) := by
  cases phase with
  | cycling ticker deadline run =>
    by_cases early : s.elapsed < deadline
    · simpa [marks, Phase.begins, Phase.goesOn, pollController, early, Nat.not_le.2 early] using
        Loops.hold early
    · have works := s.works_pollCycle c stopping ticker run
      simpa [marks, Phase.begins, Phase.goesOn, pollController, early, Nat.le_of_not_lt early] using
        Loops.goOn works
  | created delay =>
    cases stopping
    · exact .create
    · exact .stop
  | delaying deadline =>
    cases stopping
    · by_cases early : s.elapsed < deadline
      · simpa [marks, Phase.begins, Phase.goesOn, pollController, early] using Loops.delay early
      · by_cases none : c.interval = 0
        · simpa [marks, Phase.begins, Phase.goesOn, pollController, early, none] using Loops.crash
        · simpa [marks, Phase.begins, Phase.goesOn, pollController, early, none] using
            Loops.tick (Nat.le_of_not_lt early)
    · exact .stop
  | between ticker =>
    cases stopping
    · cases due : ticker.isDue s.elapsed
      · simpa [marks, Phase.begins, Phase.goesOn, pollController, due] using Loops.wait
      · have works := s.works_pollCycle c false (ticker.after s.elapsed)
          (.start c.replica (s.cycleOf c.replica c.role))
        simpa [marks, Phase.begins, Phase.goesOn, pollController, due] using Loops.begin due works
    · exact .stop

namespace World

/-- The marks that the controller with a number leaves in what happens next. -/
def marks (w : World) (n : Nat) : List Mark :=
  match w.focus, w.taskOf? n with
  | some (.task k), some t => if k = n then w.scene.marks t.activity else []
  | _, _ => []

/-- A run, with the marks that the controller with a number has left in it. -/
inductive Chronicle (n : Nat) (start : World) : List Mark → World → Prop
  | start : Chronicle n start [] start
  | next {ms : List Mark} {w w' : World} (before : Chronicle n start ms w)
    (next : w.next? = some w') : Chronicle n start (ms ++ w.marks n) w'
  | touch {ms : List Mark} {w w' : World} (before : Chronicle n start ms w) (idle : w.IsIdle)
    (touch : w.Touch w') : Chronicle n start ms w'

/-- Every run has a chronicle. -/
theorem exists_chronicle {n : Nat} {start w : World} (run : Passes start w) :
    ∃ ms, Chronicle n start ms w := by
  induction run with
  | refl => exact ⟨[], .start⟩
  | tail _ turn ih =>
    obtain ⟨ms, before⟩ := ih
    cases turn with
    | next next => exact ⟨_, before.next next⟩
    | touch idle touch => exact ⟨ms, before.touch idle touch⟩

/-- The first things that happen, `fuel` at most, and the marks that a controller leaves. -/
def chronicle (n : Nat) : (fuel : Nat) → World → List Mark × World
  | 0, w => ([], w)
  | fuel + 1, w =>
    match w.next? with
    | some w' =>
      let rest := chronicle n fuel w'
      (w.marks n ++ rest.1, rest.2)
    | none => ([], w)

theorem Chronicle.settle {n fuel : Nat} {start w : World} {ms : List Mark}
    (before : Chronicle n start ms w) :
    Chronicle n start (ms ++ (chronicle n fuel w).1) (chronicle n fuel w).2 := by
  induction fuel generalizing ms w with
  | zero => simpa [chronicle] using before
  | succ fuel ih =>
    rw [chronicle]
    split
    · rename_i next
      simpa using ih (before.next next)
    · simpa using before

end World

/-! ## Pace -/

/-- What is known about the next cycle. -/
inductive Pace where
  /-- It begins when the tick is due, but not before the controller is free. -/
  | waiting (ticker : Ticker) (free : Nat)
  /-- One has begun and not ended yet. The next tick is known already. -/
  | running (ticker : Ticker) (since : Nat)
  deriving DecidableEq

namespace Pace

/-- What is known after a mark. There is nothing if the mark is not at its time. -/
def after? : Pace → Mark → Option Pace
  | waiting ticker free, .began time =>
    if time = max free ticker.deadline then some (running (ticker.after time) time) else none
  | running ticker since, .ended time => if since ≤ time then some (waiting ticker time) else none
  | _, _ => none

/-- What is known after some marks. -/
def follow? (p : Pace) (ms : List Mark) : Option Pace := ms.foldlM after? p

/-- The next tick. -/
def ticker : Pace → Ticker
  | waiting ticker _ | running ticker _ => ticker

variable {p q : Pace} {ms ns : List Mark} {m : Mark}

theorem follow?_append : p.follow? (ms ++ ns) = (p.follow? ms).bind fun q => q.follow? ns :=
  List.foldlM_append

theorem follow?_cons : p.follow? (m :: ms) = (p.after? m).bind fun q => q.follow? ms :=
  List.foldlM_cons

end Pace

/-- What is known about a controller at its launch. -/
def Launch.pace (l : Launch) (time : Nat) : Pace :=
  .waiting ⟨time + l.delay, l.controller.interval⟩ time

namespace World

/-- A controller that waits for a moment will not miss it. -/
def IsScheduled (w : World) (n : Nat) (t : Task) (deadline : Nat) : Prop :=
  n ∈ w.ready ∨ w.focus = some (.task n) ∨
    (t.timer.any fun timer => timer.deadline = deadline) = true

/-- Where the loop of a controller stands agrees with what is known, when it was launched at a
time. -/
def Agrees (w : World) (n : Nat) (l : Launch) (time : Nat) (t : Task) (p : Pace) : Phase → Prop
  | .created delay => delay = l.delay ∧ p = l.pace time ∧ w.scene.elapsed = time ∧
    (n ∈ w.ready ∨ w.focus = some (.task n))
  | .delaying deadline => deadline = time + l.delay ∧ p = l.pace time ∧ time ≤ w.scene.elapsed ∧
    w.scene.elapsed ≤ deadline ∧ w.IsScheduled n t deadline
  | .between ticker => ∃ free, p = .waiting ticker free ∧ free ≤ w.scene.elapsed ∧
    w.scene.elapsed ≤ max free ticker.deadline ∧ w.IsScheduled n t ticker.deadline
  | .cycling ticker _ _ => ∃ since, p = .running ticker since ∧ since ≤ w.scene.elapsed

/-- The controller with a number keeps its pace, as long as there is one. -/
structure IsPaced (n : Nat) (l : Launch) (time : Nat) (w : World) (p : Pace) : Prop where
  known : n < w.fresh
  agrees : ∀ t, w.taskOf? n = some t → t.activity.isDropped = false →
    ∃ stopping phase, t.activity = .controlling l.controller stopping phase ∧
      w.Agrees n l time t p phase

variable {w w' : World} {n time : Nat} {l : Launch} {p : Pace} {t : Task}

/-- It still agrees if no time has passed and the controller can still go on if it could. -/
theorem Agrees.still {phase : Phase} {u : Task} (A : w.Agrees n l time t p phase)
    (elapsed : w'.scene.elapsed = w.scene.elapsed) (timer : u.timer = t.timer)
    (turn : n ∈ w.ready ∨ w.focus = some (.task n) → n ∈ w'.ready ∨ w'.focus = some (.task n)) :
    w'.Agrees n l time u p phase := by
  have scheduled : ∀ {deadline}, w.IsScheduled n t deadline → w'.IsScheduled n u deadline := by
    intro deadline next
    rw [IsScheduled, timer, ← or_assoc]
    rw [IsScheduled, ← or_assoc] at next
    exact next.imp_left turn
  cases phase with
  | created delay =>
    obtain ⟨delay, same, now, next⟩ := A
    exact ⟨delay, same, elapsed.trans now, turn next⟩
  | delaying deadline =>
    obtain ⟨due, same, early, late, next⟩ := A
    exact ⟨due, same, by rwa [elapsed], by rwa [elapsed], scheduled next⟩
  | between ticker =>
    obtain ⟨free, same, early, late, next⟩ := A
    exact ⟨free, same, by rwa [elapsed], by rwa [elapsed], scheduled next⟩
  | cycling ticker deadline run =>
    obtain ⟨since, same, early⟩ := A
    exact ⟨since, same, by rwa [elapsed]⟩

namespace IsPaced

variable (P : IsPaced n l time w p)
include P

/-- **What others do** does not change the pace of a controller. -/
theorem spared (spares : Spares n w w')
    (turn : w.focus = some (.task n) → w'.focus = some (.task n)) : IsPaced n l time w' p where
  known := Nat.lt_of_lt_of_le P.known spares.fresh
  agrees t ht live := by
    rcases spares.task with same | ⟨u, hu, dropped⟩
    · obtain ⟨stopping, phase, own, A⟩ := P.agrees t (same ▸ ht) live
      exact ⟨stopping, phase, own, A.still spares.elapsed rfl (.imp spares.ready turn)⟩
    · obtain rfl := Option.some.inj (hu.symm.trans ht)
      rw [dropped] at live
      contradiction

/-- A controller that is told to stop has not missed its moment. -/
theorem stopped : IsPaced n l time (w.modifyTask n Task.stopped) p where
  known := P.known
  agrees t ht live := by
    rw [taskOf?_modifyTask (fun u hu => by unfold Task.stopped; split <;> exact hu),
      if_pos rfl] at ht
    obtain ⟨u, hu, rfl⟩ := Option.map_eq_some_iff.1 ht
    have live : u.activity.isDropped = false := by
      unfold Task.stopped at live
      split at live
      · rename_i own
        rw [own]
        rfl
      · exact live
    obtain ⟨stopping, phase, own, A⟩ := P.agrees u hu live
    refine ⟨true, phase, ?_, A.still rfl ?_ id⟩ <;> simp only [Task.stopped, own]

/-- When it is the turn of somebody. -/
theorem picked {k : Nat} {ready : List Nat} (focus : w.focus = none) (next : w.ready = k :: ready) :
    IsPaced n l time { w with ready, focus := some (.task k) } p where
  known := P.known
  agrees t ht live := by
    obtain ⟨stopping, phase, own, A⟩ := P.agrees t ht live
    refine ⟨stopping, phase, own, A.still rfl rfl fun turn => ?_⟩
    rw [focus, next, List.mem_cons] at turn
    rcases turn with (rfl | later) | none
    · exact .inr rfl
    · exact .inl later
    · contradiction

/-- **When time passes**, it does not pass beyond the moment for which a controller waits. -/
theorem passed {d : Nat} (focus : w.focus = none) (rest : w.ready = [])
    (next : w.nextDeadline? = some d) : IsPaced n l time (w.passTo d) p := by
  have passes : PassesTo d w (w.passTo d) := passesTo_passTo
  refine ⟨passes.fresh ▸ P.known, fun u hu live => ?_⟩
  rw [passes.taskOf?] at hu
  obtain ⟨t, ht, rfl⟩ := Option.map_eq_some_iff.1 hu
  have activity : (t.passedTo d).activity = t.activity := by
    unfold Task.passedTo
    split <;> rfl
  rw [activity] at live ⊢
  obtain ⟨stopping, phase, own, A⟩ := P.agrees t ht live
  refine ⟨stopping, phase, own, ?_⟩
  -- It has a timer, since it cannot go on before time has passed.
  have waits : ∀ {deadline}, w.IsScheduled n t deadline →
      d ≤ deadline ∧ (w.passTo d).IsScheduled n (t.passedTo d) deadline := by
    rintro deadline (ready | turn | timer)
    · rw [rest] at ready
      contradiction
    · rw [focus] at turn
      contradiction
    · refine ⟨nextDeadline?_le ht timer next, ?_⟩
      by_cases late : (t.timer.any fun timer => timer.deadline ≤ d) = true
      · exact .inl (number_of_taskOf? ht ▸ passes.ready t (mem_of_taskOf? ht) late)
      · refine .inr (.inr ?_)
        rwa [Task.passedTo, if_neg late]
  have elapsed := passes.elapsed
  cases phase with
  | created delay =>
    obtain ⟨-, -, -, ready | turn⟩ := A
    · rw [rest] at ready
      contradiction
    · rw [focus] at turn
      contradiction
  | delaying deadline =>
    obtain ⟨due, same, early, late, next⟩ := A
    obtain ⟨bound, next⟩ := waits next
    exact ⟨due, same, by omega, by omega, next⟩
  | between ticker =>
    obtain ⟨free, same, early, late, next⟩ := A
    obtain ⟨bound, next⟩ := waits next
    exact ⟨free, same, by omega, by omega, next⟩
  | cycling ticker deadline run =>
    obtain ⟨since, same, early⟩ := A
    exact ⟨since, same, by omega⟩

omit P in
/-- There is no pace to keep for a controller that has ended. -/
theorem of_gone (known : n < w.fresh) (gone : w.taskOf? n = none) : IsPaced n l time w p :=
  ⟨known, fun _ own => absurd (gone.symm.trans own) nofun⟩

omit P in
theorem of_agrees {stopping : Bool} {phase : Phase} (known : n < w.fresh)
    (own : w.taskOf? n = some t)
    (activity : t.activity = .controlling l.controller stopping phase)
    (A : w.Agrees n l time t p phase) : IsPaced n l time w p := by
  refine ⟨known, fun u hu _ => ?_⟩
  obtain rfl := Option.some.inj (own.symm.trans hu)
  exact ⟨stopping, phase, activity, A⟩

omit P in
/-- A task that goes on takes no time. -/
theorem elapsed_of_poll {poll : Poll} {scene : Scene}
    (hp : w.scene.poll w.isAlive t.number t.activity = (scene, poll)) :
    scene.elapsed = w.scene.elapsed :=
  (congrArg (fun p => p.1.elapsed) hp).symm.trans Scene.elapsed_poll

section

variable {scene : Scene} {stopping : Bool} {phase : Phase} {q : Pace}
  (focus : w.focus = some (.task n)) (own : w.taskOf? n = some t)
include own

theorem ended {answer : Answer}
    (hp : w.scene.poll w.isAlive t.number t.activity = (scene, .ended answer)) :
    IsPaced n l time (w.runTask t) q := by
  obtain ⟨gone, fresh⟩ := runTask_of_ended own hp
  exact of_gone (fresh ▸ P.known) gone

include focus in
theorem again (hp : w.scene.poll w.isAlive t.number t.activity =
      (scene, .again (.controlling l.controller stopping phase)))
    (A : ∀ {w' : World} {u : Task}, w'.scene.elapsed = w.scene.elapsed →
      w'.focus = some (.task n) → w'.Agrees n l time u q phase) :
    IsPaced n l time (w.runTask t) q := by
  obtain ⟨next, turn, same, fresh⟩ := runTask_of_again own hp
  exact of_agrees (fresh ▸ P.known) next rfl
    (A (same ▸ elapsed_of_poll hp) (turn.trans focus))

theorem blocked {deadline : Nat} (hp : w.scene.poll w.isAlive t.number t.activity =
      (scene, .blocked deadline (.controlling l.controller stopping phase)))
    (A : ∀ {w' : World} {u : Task}, w'.scene.elapsed = w.scene.elapsed →
      w'.IsScheduled n u deadline → w'.Agrees n l time u q phase) :
    IsPaced n l time (w.runTask t) q := by
  obtain ⟨u, next, activity, timer, same, fresh⟩ := runTask_of_blocked own hp
  exact of_agrees (Nat.lt_of_lt_of_le P.known fresh) next activity
    (A (same ▸ elapsed_of_poll hp) (.inr (.inr timer)))

include focus in
/-- When a controller goes on with a cycle that has begun. -/
theorem works {ticker : Ticker} {since : Nat} {poll : Poll} {ms : List Mark}
    (hp : w.scene.poll w.isAlive t.number t.activity = (scene, poll))
    (works : w.scene.Works l.controller stopping ticker poll ms) (begun : since ≤ w.scene.elapsed) :
    ∃ q, (Pace.running ticker since).follow? ms = some q ∧
      IsPaced n l time (w.runTask t) q := by
  have ends : (Pace.running ticker since).follow? [.ended w.scene.elapsed] =
      some (.waiting ticker w.scene.elapsed) := by
    simp [Pace.follow?, Pace.after?, begun]
  cases works with
  | ended =>
    refine ⟨_, ends, P.again focus own hp fun elapsed turn => ?_⟩
    exact ⟨_, rfl, by omega, by omega, .inr (.inl turn)⟩
  | crashed => exact ⟨_, ends, P.ended own hp⟩
  | waits => exact ⟨_, rfl, P.blocked own hp fun elapsed _ => ⟨since, rfl, by omega⟩⟩

include focus in
/-- **When a controller goes on.** -/
theorem runTask :
    ∃ q, p.follow? (w.scene.marks t.activity) = some q ∧ IsPaced n l time (w.runTask t) q := by
  cases hp : w.scene.poll w.isAlive t.number t.activity with
  | mk scene poll =>
    cases dropped : t.activity.isDropped with
    | true =>
      cases activity : t.activity with
      | dropped replica inside =>
        rw [activity] at hp
        obtain ⟨rfl, rfl⟩ := Prod.mk.inj hp
        refine ⟨p, rfl, P.ended own (activity ▸ hp)⟩
      | _ => rw [activity] at dropped; contradiction
    | false =>
      obtain ⟨stopping, phase, activity, A⟩ := P.agrees t own dropped
      have loops := w.scene.loops_pollController l.controller stopping phase
      have polled : (w.scene.pollController l.controller stopping phase).2 = poll := by
        rw [activity] at hp
        exact congrArg Prod.snd hp
      rw [polled] at loops
      rw [activity]
      generalize w.scene.marks _ = ms at loops ⊢
      cases loops with
      | hold early =>
        obtain ⟨since, rfl, begun⟩ := A
        exact ⟨_, rfl, P.blocked own hp fun elapsed _ => ⟨since, rfl, by omega⟩⟩
      | goOn works =>
        obtain ⟨since, rfl, begun⟩ := A
        exact P.works focus own hp works begun
      | stop => exact ⟨p, rfl, P.ended own hp⟩
      | create =>
        obtain ⟨rfl, rfl, now, -⟩ := A
        refine ⟨_, rfl, P.again focus own hp fun elapsed turn => ?_⟩
        exact ⟨by omega, rfl, by omega, by omega, .inr (.inl turn)⟩
      | delay early =>
        obtain ⟨due, rfl, launched, late, -⟩ := A
        refine ⟨_, rfl, P.blocked own hp fun elapsed next => ?_⟩
        exact ⟨due, rfl, by omega, by omega, next⟩
      | crash => exact ⟨p, rfl, P.ended own hp⟩
      | tick late =>
        obtain ⟨rfl, rfl, launched, early, -⟩ := A
        refine ⟨_, rfl, P.again focus own hp fun elapsed turn => ?_⟩
        have now : w.scene.elapsed = time + l.delay := Nat.le_antisymm early late
        rw [now] at elapsed ⊢
        refine ⟨time, rfl, by omega, ?_, .inr (.inl turn)⟩
        rw [elapsed]
        exact Nat.le_max_right _ _
      | wait =>
        obtain ⟨free, rfl, launched, early, -⟩ := A
        refine ⟨_, rfl, P.blocked own hp fun elapsed next => ?_⟩
        exact ⟨free, rfl, by omega, by omega, next⟩
      | @begin ticker _ _ due works =>
        obtain ⟨free, rfl, launched, early, -⟩ := A
        have due : ticker.deadline ≤ w.scene.elapsed := of_decide_eq_true due
        have now : w.scene.elapsed = max free ticker.deadline :=
          Nat.le_antisymm early (Nat.max_le.2 ⟨launched, due⟩)
        obtain ⟨q, follows, P'⟩ := P.works focus own hp works (Nat.le_refl _)
        refine ⟨q, ?_, P'⟩
        rw [Pace.follow?_cons, Pace.after?, if_pos now]
        exact follows

end

/-! ## Runs -/

omit P in
theorem marks_of_other (other : w.focus ≠ some (.task n)) : w.marks n = [] := by
  unfold marks
  split
  · rename_i k _ focus _
    refine if_neg ?_
    rintro rfl
    exact other focus
  · rfl

omit P in
theorem marks_of_own (focus : w.focus = some (.task n)) (own : w.taskOf? n = some t) :
    w.marks n = w.scene.marks t.activity := by
  simp [marks, focus, own]

omit P in
theorem marks_of_gone (gone : w.taskOf? n = none) : w.marks n = [] := by
  unfold marks
  split
  · rename_i own
    exact absurd (gone.symm.trans own) nofun
  · rfl

/-- **Whatever happens, a controller keeps its pace.** -/
theorem next (next : w.next? = some w') :
    ∃ q, p.follow? (w.marks n) = some q ∧ IsPaced n l time w' q := by
  have change := change_of_next? next
  clear next
  by_cases turn : w.focus = some (.task n)
  · cases change with
    | task focus own =>
      cases focus.symm.trans turn
      rw [marks_of_own turn own]
      exact P.runTask turn own
    | gone focus gone =>
      cases focus.symm.trans turn
      exact ⟨p, by rw [marks_of_gone gone]; rfl, of_gone P.known gone⟩
    | foreground focus | idle focus | pick focus | wake focus | pass focus =>
      exact absurd (focus.symm.trans turn) nofun
  · rw [marks_of_other turn]
    have spared (spares : Spares n w w') := P.spared spares fun own => absurd own turn
    refine ⟨p, rfl, ?_⟩
    cases change with
    | foreground => exact spared (spares_runForeground P.known)
    | task focus own =>
      refine spared (spares_runTask P.known fun number => turn ?_)
      rw [focus, ← number_of_taskOf? own, number]
    | idle | gone | wake => exact spared ((Spares.refl w).of_eq rfl rfl rfl (Nat.le_refl _))
    | pick focus next => exact P.picked focus next
    | pass focus rest next => exact P.passed focus rest next

/-- What is done from outside does not change the pace of a controller. -/
theorem touched (idle : w.IsIdle) (touch : w.Touch w') : IsPaced n l time w' p := by
  rcases spares_touch P.known touch with spares | rfl
  · refine P.spared spares fun turn => ?_
    rw [idle.focus] at turn
    contradiction
  · exact P.stopped

end IsPaced

/-- A controller with a number has just been launched. -/
structure HasLaunched (n : Nat) (l : Launch) (w : World) : Prop where
  task : w.taskOf? n =
    some { number := n, activity := .controlling l.controller false (.created l.delay) }
  ready : n ∈ w.ready
  known : n < w.fresh

/-- A launch takes a number that nobody has. -/
theorem hasLaunched_launch (numbered : w.IsNumbered) : HasLaunched w.fresh l (w.launch l) where
  task := by
    have others : w.tasks.find? (fun t => t.number = w.fresh) = none := by
      refine List.find?_eq_none.2 fun t ht => ?_
      simpa using Nat.ne_of_lt (numbered t ht)
    simp [taskOf?, launch, addTask, List.find?_append, others]
  ready := List.mem_append_right _ (List.mem_singleton_self _)
  known := Nat.lt_succ_self _

theorem HasLaunched.isPaced (launched : HasLaunched n l w) :
    IsPaced n l w.scene.elapsed w (l.pace w.scene.elapsed) :=
  .of_agrees launched.known launched.task rfl ⟨rfl, rfl, rfl, .inl launched.ready⟩

/-- A controller keeps its pace in every run from its launch on. -/
theorem HasLaunched.isPaced_of_chronicle {start : World} {ms : List Mark}
    (launched : HasLaunched n l start) (chronicle : Chronicle n start ms w) :
    ∃ p, (l.pace start.scene.elapsed).follow? ms = some p ∧
      IsPaced n l start.scene.elapsed w p := by
  induction chronicle with
  | start => exact ⟨_, rfl, launched.isPaced⟩
  | next _ next ih =>
    obtain ⟨p, follows, P⟩ := ih
    obtain ⟨q, goesOn, Q⟩ := P.next next
    exact ⟨q, by rw [Pace.follow?_append, follows]; exact goesOn, Q⟩
  | touch _ idle touch ih =>
    obtain ⟨p, follows, P⟩ := ih
    exact ⟨p, follows, P.touched idle touch⟩

end World

namespace Pace

variable {p q : Pace} {ms : List Mark} {m : Mark}

/-- What the beginning of a cycle says about what was known before. -/
theorem after?_began {time : Nat} (h : p.after? (.began time) = some q) :
    ∃ ticker free, p = waiting ticker free ∧ time = max free ticker.deadline ∧
      q = running (ticker.after time) time := by
  cases p with
  | waiting ticker free =>
    rw [after?] at h
    split at h
    · exact ⟨ticker, free, rfl, ‹_›, (Option.some.inj h).symm⟩
    · contradiction
  | running => contradiction

/-- What the end of a cycle says about what was known before. -/
theorem after?_ended {time : Nat} (h : p.after? (.ended time) = some q) :
    ∃ ticker since, p = running ticker since ∧ since ≤ time ∧ q = waiting ticker time := by
  cases p with
  | running ticker since =>
    rw [after?] at h
    split at h
    · exact ⟨ticker, since, rfl, ‹_›, (Option.some.inj h).symm⟩
    · contradiction
  | waiting => contradiction

/-- Ticks are multiples of the period apart. -/
theorem exists_beat (h : p.follow? ms = some q) :
    ∃ k, q.ticker = ⟨p.ticker.deadline + k * p.ticker.period, p.ticker.period⟩ := by
  induction ms generalizing p with
  | nil =>
    cases h
    exact ⟨0, by rw [Nat.zero_mul, Nat.add_zero]⟩
  | cons m ms ih =>
    rw [follow?_cons] at h
    obtain ⟨r, first, rest⟩ := Option.bind_eq_some_iff.1 h
    obtain ⟨k, beat⟩ := ih rest
    cases m with
    | began time =>
      obtain ⟨ticker, free, rfl, now, rfl⟩ := after?_began first
      have due : ticker.isDue time = true := decide_eq_true (now ▸ Nat.le_max_right _ _)
      obtain ⟨j, later⟩ := Ticker.exists_deadline_after due
      refine ⟨j + k, beat.trans ?_⟩
      simp [Pace.ticker, later, Nat.add_mul, Nat.add_assoc]
    | ended time =>
      obtain ⟨ticker, since, rfl, -, rfl⟩ := after?_ended first
      exact ⟨k, beat⟩

/-- A controller that waits has been free since its launch or since the end of a cycle. -/
theorem free_of_follow? {first ticker : Ticker} {launched free : Nat}
    (h : (waiting first launched).follow? ms = some (waiting ticker free)) :
    (first = ticker ∧ launched = free) ∨ ∃ before, ms = before ++ [.ended free] := by
  rcases List.eq_nil_or_concat ms with rfl | ⟨before, m, last⟩
  · cases h
    exact .inl ⟨rfl, rfl⟩
  · obtain rfl := last.trans List.concat_eq_append
    rw [follow?_append] at h
    obtain ⟨p, -, last⟩ := Option.bind_eq_some_iff.1 h
    rw [follow?_cons] at last
    obtain ⟨q, last, same⟩ := Option.bind_eq_some_iff.1 last
    obtain rfl := Option.some.inj same
    clear same
    cases m with
    | began time =>
      obtain ⟨_, _, _, _, same⟩ := after?_began last
      contradiction
    | ended time =>
      obtain ⟨_, _, _, _, same⟩ := after?_ended last
      cases same
      exact .inr ⟨before, rfl⟩

end Pace

namespace World

/-- **When cycles begin.** A cycle begins a multiple of the interval after the initial delay, or
when the cycle before it ends, if a tick has come due during that. -/
theorem beginnings_of_chronicle {n : Nat} {l : Launch} {start w : World} {ms : List Mark}
    (launched : HasLaunched n l start) (chronicle : Chronicle n start ms w) :
    (∃ p, (l.pace start.scene.elapsed).follow? ms = some p) ∧
    ∀ earlier time later, ms = earlier ++ .began time :: later →
      ∃ k, let due := start.scene.elapsed + l.delay + k * l.controller.interval
        time = due ∨ due < time ∧ ∃ before, earlier = before ++ [.ended time] := by
  obtain ⟨last, follows, -⟩ := launched.isPaced_of_chronicle chronicle
  refine ⟨⟨last, follows⟩, ?_⟩
  rintro earlier time later rfl
  rw [Pace.follow?_append] at follows
  obtain ⟨p, sofar, follows⟩ := Option.bind_eq_some_iff.1 follows
  rw [Pace.follow?_cons] at follows
  obtain ⟨q, begins, -⟩ := Option.bind_eq_some_iff.1 follows
  obtain ⟨ticker, free, rfl, now, -⟩ := Pace.after?_began begins
  obtain ⟨k, beat⟩ := Pace.exists_beat sofar
  have due : ticker.deadline =
      start.scene.elapsed + l.delay + k * l.controller.interval := congrArg Ticker.deadline beat
  refine ⟨k, ?_⟩
  rw [← due]
  by_cases late : free ≤ ticker.deadline
  · exact .inl (now.trans (Nat.max_eq_right late))
  · have late : ticker.deadline < free := Nat.lt_of_not_le late
    obtain rfl : time = free := now.trans (Nat.max_eq_left (Nat.le_of_lt late))
    rcases Pace.free_of_follow? sofar with ⟨rfl, rfl⟩ | before
    · simp only at late
      omega
    · exact .inr ⟨late, before⟩

/-! ## A slow cycle -/

/-- A world with one replica. Its first call takes 25 seconds. -/
def slowStart : World :=
  { scene := { clock := ⟨.utc ⟨0⟩⟩, faults := [{ method := .listLeases, acts := [.delay 25000] }] }
    : World }.setUp "a" "a" "ns" {} (.fixed 1)

/-- A member controller with a cycle every ten seconds, and no delay. -/
def everyTenSeconds : Launch :=
  { controller := { replica := 0, role := .member, interval := 10000 }, delay := 0, handle := "h" }

theorem hasLaunched_slowStart : HasLaunched 0 everyTenSeconds (slowStart.launch everyTenSeconds) :=
  hasLaunched_launch (w := slowStart) fun _ ht => absurd ht List.not_mem_nil

/-- The controller is launched, and somebody sleeps for 27 seconds. -/
theorem chronicle_slowStart :
    ∃ w, Chronicle 0 (slowStart.launch everyTenSeconds)
      [.began 0, .ended 25000, .began 25000, .ended 25000] w := by
  let started := chronicle 0 20 (slowStart.launch everyTenSeconds)
  let slept := chronicle 0 20 (started.2.await (.sleeping 27000))
  have idle : started.2.IsIdle := by
    constructor <;> rfl
  have marks : started.1 ++ slept.1 = [.began 0, .ended 25000, .began 25000, .ended 25000] := by
    decide +kernel
  have launched : Chronicle 0 (slowStart.launch everyTenSeconds) ([] ++ started.1) started.2 :=
    Chronicle.start.settle
  exact ⟨slept.2, marks ▸ (launched.touch idle (.await _)).settle⟩

/-- The second cycle begins late, when the first one has ended. -/
theorem beginnings_of_slowStart :
    ∃ w ms, HasLaunched 0 everyTenSeconds (slowStart.launch everyTenSeconds) ∧
      Chronicle 0 (slowStart.launch everyTenSeconds) ms w ∧
      (∃ p, (everyTenSeconds.pace 0).follow? ms = some p) ∧
      ∃ k before, k * 10000 < 25000 ∧
        ms = before ++ [.ended 25000] ++ [.began 25000, .ended 25000] := by
  obtain ⟨w, chronicle⟩ := chronicle_slowStart
  obtain ⟨follows, begins⟩ := beginnings_of_chronicle hasLaunched_slowStart chronicle
  obtain ⟨k, onBeat | ⟨late, before, ended⟩⟩ := begins [.began 0, .ended 25000] 25000 _ rfl
  · change 25000 = 0 + 0 + k * 10000 at onBeat
    omega
  · change 0 + 0 + k * 10000 < 25000 at late
    refine ⟨w, _, hasLaunched_slowStart, chronicle, follows, k, before, by omega, ?_⟩
    rw [← ended]
    rfl

/-- A tick that comes due during a cycle starts the next one when that ends. -/
theorem begins_off_beat :
    ∃ n l start ms w, HasLaunched n l start ∧ Chronicle n start ms w ∧
      0 < l.controller.interval ∧ ∃ time, .began time ∈ ms ∧
        ∀ k, time ≠ start.scene.elapsed + l.delay + k * l.controller.interval := by
  obtain ⟨w, chronicle⟩ := chronicle_slowStart
  refine ⟨_, _, _, _, w, hasLaunched_slowStart, chronicle, by decide, 25000, by decide, ?_⟩
  intro k
  change 25000 ≠ 0 + 0 + k * 10000
  omega

end World

end LeasePool
