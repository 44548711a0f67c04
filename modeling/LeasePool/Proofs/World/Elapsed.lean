import LeasePool.World.Step

/-!
# What takes no time

Whatever a task does takes no time: operations are run up to their next delay, and the delay is
waited for by the world. So the time at which something happens is the time for which somebody
has waited.
-/

namespace LeasePool

namespace Scene

variable {α : Type} {s t : Scene} {i : Nat}

@[simp] theorem elapsed_abandon {inside : Option Role} :
    (s.abandon i inside).elapsed = s.elapsed := by
  cases inside <;> rfl

theorem elapsed_announce {kind : EventKind} {lease : String} :
    (s.announce i kind lease).elapsed = s.elapsed := by
  simp only [announce]
  split <;> rfl

theorem elapsed_ask {q : Query} {a : q.Answer} (h : s.ask i q = some (a, t)) :
    t.elapsed = s.elapsed := by
  cases q with
  | now =>
    obtain ⟨now, -, e⟩ := Option.map_eq_some_iff.1 h
    cases e
    rfl
  | announce kind lease =>
    cases h
    exact elapsed_announce
  | knownDeployment | setKnownDeployment | heldLease | enter | leave =>
    cases h
    rfl

/-! ## Calls -/

/-- What no call changes, whatever faults it goes through: the time and the processes. -/
structure SameProcesses (s t : Scene) : Prop where
  elapsed : t.elapsed = s.elapsed
  replicas : t.replicas = s.replicas

theorem SameProcesses.refl (s : Scene) : s.SameProcesses s := ⟨rfl, rfl⟩

theorem SameProcesses.trans {u : Scene} (H : s.SameProcesses t) (K : t.SameProcesses u) :
    s.SameProcesses u :=
  ⟨K.elapsed.trans H.elapsed, K.replicas.trans H.replicas⟩

theorem sameProcesses_act? {a : Act} (h : s.act? a = some t) : s.SameProcesses t := by
  cases a with
  | advance span =>
    obtain ⟨clock, -, rfl⟩ := Option.map_eq_some_iff.1 h
    exact ⟨rfl, rfl⟩
  | remove | put | switch | fail | delay =>
    cases h
    exact ⟨rfl, rfl⟩

variable {call : StoreCall}

theorem sameProcesses_goLate {reply : call.Reply} {acts : List Act} :
    s.SameProcesses (goLate reply acts s).1 := by
  induction acts generalizing s with
  | nil => exact .refl s
  | cons a acts ih =>
    cases a with
    | fail => exact .refl s
    | delay millis =>
      simp only [goLate]
      split
      · exact ih
      · exact .refl s
    | remove | put | switch | advance =>
      simp only [goLate]
      split
      · rename_i done
        exact (sameProcesses_act? done).trans ih
      · exact .refl s

theorem sameProcesses_goEarly {late acts : List Act} :
    s.SameProcesses (@goEarly call late acts s).1 := by
  induction acts generalizing s with
  | nil =>
    have answered : s.SameProcesses { s with store := (s.store.answer call).1 } := ⟨rfl, rfl⟩
    exact answered.trans sameProcesses_goLate
  | cons a acts ih =>
    cases a with
    | fail => exact .refl s
    | delay millis =>
      simp only [goEarly]
      split
      · exact ih
      · exact .refl s
    | remove | put | switch | advance =>
      simp only [goEarly]
      split
      · rename_i done
        exact (sameProcesses_act? done).trans ih
      · exact .refl s

theorem sameProcesses_call {c : StoreCall} : s.SameProcesses (s.call c).1 := by
  have counted : s.SameProcesses { s with faults := s.faults.map (·.counted c) } := ⟨rfl, rfl⟩
  exact counted.trans sameProcesses_goEarly

/-- How a call goes on that a delay has held up. -/
def goOn {call : StoreCall} : CallStage call → Scene → Scene × CallProgress call
  | .early acts late => goEarly late acts
  | .late reply acts => goLate reply acts

theorem sameProcesses_goOn {stage : CallStage call} : s.SameProcesses (goOn stage s).1 := by
  cases stage with
  | early acts late => exact sameProcesses_goEarly
  | late reply acts => exact sameProcesses_goLate

/-! ## Operations -/

/-- What an operation comes to when one of its calls has gone on. -/
def called {call : StoreCall} (i : Nat) (inside : Option Role)
    (next : call.Reply → Operation α) : Scene × CallProgress call → Scene × Progress α
  | (s, .replied reply) => run i inside (next reply) s
  | (s, .crashed) => (s.abandon i inside, .crashed)
  | (s, .waiting millis stage) =>
    (s, .waiting millis { replica := i, inside, rest := .inr { call, stage, next } })

theorem run_call {inside : Option Role} {next : call.Reply → Operation α} :
    run i inside (.call call next) s = called i inside next (s.call call) := by
  rw [run]
  split <;> (rename_i went; rw [went]; rfl)

theorem resume_suspended {inside : Option Role} {suspended : Suspended α} :
    s.resume { replica := i, inside, rest := .inr suspended } =
      called i inside suspended.next (goOn suspended.stage s) := by
  obtain ⟨call, stage, next⟩ := suspended
  cases stage with
  | early acts late =>
    simp only [resume, goOn]
    cases goEarly late acts s with
    | mk t progress => cases progress <;> rfl
  | late reply acts =>
    simp only [resume, goOn]
    cases goLate reply acts s with
    | mk t progress => cases progress <;> rfl

theorem elapsed_called {inside : Option Role} {next : call.Reply → Operation α}
    {went : Scene × CallProgress call}
    (rest : ∀ reply, (run i inside (next reply) went.1).1.elapsed = went.1.elapsed) :
    (called i inside next went).1.elapsed = went.1.elapsed := by
  obtain ⟨t, progress⟩ := went
  cases progress with
  | replied reply => exact rest reply
  | crashed => exact elapsed_abandon
  | waiting millis stage => rfl

theorem elapsed_run {inside : Option Role} {x : Operation α} :
    (run i inside x s).1.elapsed = s.elapsed := by
  induction x generalizing inside s with
  | done a => rfl
  | crash => exact elapsed_abandon
  | ask q next ih =>
    simp only [run]
    split
    · rename_i answer
      exact (ih _).trans (elapsed_ask answer)
    · exact elapsed_abandon
  | call c next ih =>
    rw [run_call]
    exact (elapsed_called fun reply => ih reply).trans sameProcesses_call.elapsed

/-- **An operation takes no time up to its next delay.** -/
theorem elapsed_resume {r : Running α} : (s.resume r).1.elapsed = s.elapsed := by
  obtain ⟨i, inside, rest⟩ := r
  cases rest with
  | inl x => exact elapsed_run
  | inr suspended =>
    rw [resume_suspended]
    exact (elapsed_called fun _ => elapsed_run).trans sameProcesses_goOn.elapsed

/-! ## Tasks -/

theorem elapsed_pollOperating {run : Running Answer} {queue : List (Nat × Operation Answer)}
    {start : Nat} {ending : Ending} :
    (s.pollOperating run queue start ending).1.elapsed = s.elapsed := by
  have same := elapsed_resume (s := s) (r := run)
  simp only [pollOperating]
  split <;> (rename_i went; rw [went] at same)
  · exact same
  · exact same
  · split
    · exact same
    · split <;> exact same

theorem elapsed_pollAwaiting {waiter number deadline start : Nat} {wait : Wait} {limit : Span} :
    (s.pollAwaiting waiter i number wait limit deadline start).1.elapsed = s.elapsed := by
  simp only [pollAwaiting]
  split
  · rfl
  · split <;> rfl

theorem elapsed_pollReleasing {run : Running Unit} {deadline start : Nat} :
    (s.pollReleasing run deadline start).1.elapsed = s.elapsed := by
  have same := elapsed_resume (s := s) (r := run)
  simp only [pollReleasing]
  split <;> (rename_i went; rw [went] at same)
  · exact same
  · exact same
  · split
    · exact elapsed_abandon.trans same
    · exact same

theorem elapsed_pollCycle {c : Controller} {stopping : Bool} {ticker : Ticker}
    {run : Running Unit} : (s.pollCycle c stopping ticker run).1.elapsed = s.elapsed := by
  have same := elapsed_resume (s := s) (r := run)
  simp only [pollCycle]
  split <;> (rename_i went; rw [went] at same; exact same)

theorem elapsed_pollController {c : Controller} {stopping : Bool} {phase : Phase} :
    (s.pollController c stopping phase).1.elapsed = s.elapsed := by
  unfold pollController
  split
  · split
    · rfl
    · exact elapsed_pollCycle
  · split
    · rfl
    · split
      · rfl
      · split
        · rfl
        · split <;> rfl
      · split
        · exact elapsed_pollCycle
        · rfl
      · rfl

/-- **No step of a task takes any time.** -/
theorem elapsed_poll {alive : Nat → Bool} {number : Nat} {a : Activity} :
    (s.poll alive number a).1.elapsed = s.elapsed := by
  cases a with
  | operating =>
    simp only [poll]
    split
    · rfl
    · exact elapsed_pollOperating
  | sleeping =>
    simp only [poll]
    split <;> rfl
  | awaiting => exact elapsed_pollAwaiting
  | joining =>
    simp only [poll]
    split
    · rfl
    · split <;> rfl
  | releasing =>
    simp only [poll]
    split
    · exact elapsed_pollReleasing
    · split
      · exact elapsed_abandon
      · rfl
  | controlling => exact elapsed_pollController
  | dropped => exact elapsed_abandon

end Scene

end LeasePool
