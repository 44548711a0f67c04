import LeasePool.Proofs.World.Runs

/-!
# One task among others

Most of what happens in a world is none of the business of a task: it is left as it is, or it is
dropped, no time passes, and if it could go on it still can. What remains is that the task goes on
itself, that it is its turn, and that time passes.
-/

namespace LeasePool

/-- Whether a task has been given up. -/
def Activity.isDropped : Activity → Bool
  | dropped .. => true
  | _ => false

/-- A task when the time has come to a deadline. -/
def Task.passedTo (d : Nat) (t : Task) : Task :=
  if t.timer.any fun timer => timer.deadline ≤ d then { t with timer := none } else t

@[simp] theorem Task.number_passedTo {d : Nat} {t : Task} : (t.passedTo d).number = t.number := by
  unfold passedTo
  split <;> rfl

namespace World

/-- No time passes, and a task is left as it is or dropped; if it can go on, it still can. -/
structure Spares (n : Nat) (w w' : World) : Prop where
  elapsed : w'.scene.elapsed = w.scene.elapsed
  task : w'.taskOf? n = w.taskOf? n ∨ ∃ t, w'.taskOf? n = some t ∧ t.activity.isDropped = true
  ready : n ∈ w.ready → n ∈ w'.ready
  fresh : w.fresh ≤ w'.fresh

variable {w w' w'' : World} {n k : Nat} {t : Task} {a : Activity}

theorem number_of_taskOf? (h : w.taskOf? n = some t) : t.number = n := by
  simpa using List.find?_some h

theorem mem_of_taskOf? (h : w.taskOf? n = some t) : t ∈ w.tasks := List.mem_of_find?_eq_some h

/-- A task among others after one of them has been changed. -/
theorem taskOf?_modifyTask {f : Task → Task} (hf : ∀ u, u.number = k → (f u).number = k) :
    (w.modifyTask k f).taskOf? n = if k = n then (w.taskOf? n).map f else w.taskOf? n := by
  have same : ∀ u : Task, (if u.number = k then f u else u).number = u.number := by
    intro u
    split
    · rename_i own
      rw [hf u own, own]
    · rfl
  simp only [taskOf?, modifyTask, List.find?_map, Function.comp_def, same]
  cases found : w.tasks.find? fun u => u.number = n with
  | none => simp
  | some u =>
    have number : u.number = n := by simpa using List.find?_some found
    simp only [Option.map_some, number]
    by_cases own : n = k
    · rw [if_pos own, if_pos own.symm]
    · rw [if_neg own, if_neg (Ne.symm own)]

namespace Spares

theorem refl (w : World) : Spares n w w := ⟨rfl, .inl rfl, id, Nat.le_refl _⟩

theorem trans (H : Spares n w w') (K : Spares n w' w'') : Spares n w w'' where
  elapsed := K.elapsed.trans H.elapsed
  task := by
    rcases K.task with same | dropped
    · rw [same]
      exact H.task
    · exact .inr dropped
  ready h := K.ready (H.ready h)
  fresh := Nat.le_trans H.fresh K.fresh

/-- What is not in the tasks, the time, or the order of their turns concerns no task. -/
theorem of_eq (H : Spares n w w') (elapsed : w''.scene.elapsed = w'.scene.elapsed)
    (tasks : w''.tasks = w'.tasks) (ready : w''.ready = w'.ready) (fresh : w'.fresh ≤ w''.fresh) :
    Spares n w w'' :=
  H.trans ⟨elapsed, .inl (by rw [taskOf?, taskOf?, tasks]), fun h => ready ▸ h, fresh⟩

theorem wake (H : Spares n w w') : Spares n w (w'.wake k) := by
  unfold World.wake
  split
  · exact H
  · exact H.trans ⟨rfl, .inl rfl, fun h => List.mem_append_left _ h, Nat.le_refl _⟩

theorem foldl {β : Type} {f : World → β → World}
    (step : ∀ {w'} b, Spares n w w' → Spares n w (f w' b)) {bs : List β} (H : Spares n w w') :
    Spares n w (bs.foldl f w') := by
  induction bs generalizing w' with
  | nil => exact H
  | cons b bs ih => exact ih (step b H)

theorem rouse (H : Spares n w w') : Spares n w w'.rouse :=
  have woken := H.foldl (f := fun w (t : Task) => w.wake t.number) fun _ => wake
  woken.of_eq rfl rfl rfl (Nat.le_refl _)

theorem addTask (H : Spares n w w') (known : n < w.fresh) : Spares n w (w'.addTask a) := by
  refine H.trans ⟨rfl, .inl ?_, fun h => List.mem_append_left _ h, Nat.le_succ _⟩
  have other : decide (w'.fresh = n) = false :=
    decide_eq_false (Nat.ne_of_gt (Nat.lt_of_lt_of_le known H.fresh))
  simp only [taskOf?, World.addTask, List.find?_append]
  simp [other]

theorem launch {l : Launch} (H : Spares n w w') (known : n < w.fresh) :
    Spares n w (w'.launch l) := by
  refine addTask ?_ known
  exact H.of_eq rfl rfl rfl (Nat.le_refl _)

/-- A change of another task. -/
theorem modifyTask {f : Task → Task} (H : Spares n w w')
    (hf : ∀ u, u.number = k → (f u).number = k) (other : k ≠ n) :
    Spares n w (w'.modifyTask k f) :=
  H.trans ⟨rfl, .inl (by rw [taskOf?_modifyTask hf, if_neg other]), id, Nat.le_refl _⟩

theorem drop (H : Spares n w w') : Spares n w (w'.drop k) := by
  simp only [World.drop]
  refine wake (H.trans ⟨rfl, ?_, id, Nat.le_refl _⟩)
  rw [taskOf?_modifyTask (by exact fun _ own => own)]
  split
  · cases w'.taskOf? n with
    | none => exact .inl rfl
    | some t => exact .inr ⟨_, rfl, rfl⟩
  · exact .inl rfl

theorem arm {d : Nat} (H : Spares n w w') : Spares n w (w'.arm t d).1 := by
  unfold World.arm
  split
  · exact H
  · exact H.of_eq rfl rfl rfl (Nat.le_succ _)

/-- The tasks without another one. -/
theorem filter (H : Spares n w w') (other : k ≠ n) :
    Spares n w { w' with tasks := w'.tasks.filter fun u => u.number ≠ k } := by
  refine H.trans ⟨rfl, .inl ?_, id, Nat.le_refl _⟩
  simp only [taskOf?, List.find?_filter]
  congr 1
  funext u
  by_cases own : u.number = n
  · simp [own, Ne.symm other]
  · simp [own]

/-- The scene after somebody has gone on. -/
theorem poll {scene : Scene} {poll : Poll} (hp : w.scene.poll w.isAlive k a = (scene, poll)) :
    Spares n w { w with scene } := by
  refine (refl w).of_eq ?_ rfl rfl (Nat.le_refl _)
  exact (congrArg (fun p => p.1.elapsed) hp).symm.trans Scene.elapsed_poll

end Spares

/-- Arming a task gives it a timer for the deadline, and changes nothing else. -/
structure Arms (t : Task) (d : Nat) (w w' : World) (u : Task) : Prop where
  number : u.number = t.number
  activity : u.activity = t.activity
  timer : (u.timer.any fun timer => timer.deadline = d) = true
  scene : w'.scene = w.scene
  tasks : w'.tasks = w.tasks
  fresh : w.fresh ≤ w'.fresh

theorem arms_arm {d : Nat} : Arms t d w (w.arm t d).1 (w.arm t d).2 := by
  unfold arm
  split
  · exact ⟨rfl, rfl, by assumption, rfl, rfl, Nat.le_refl _⟩
  · exact ⟨rfl, rfl, by simp, rfl, rfl, Nat.le_succ _⟩

/-! ## What others do -/

/-- **When the foreground goes on**, no task is concerned. -/
theorem spares_runForeground (known : n < w.fresh) : Spares n w (w.runForeground t) := by
  cases hp : w.scene.poll w.isAlive t.number t.activity with
  | mk scene poll =>
    have polled : Spares n w { w with scene } := .poll hp
    cases poll <;> simp only [runForeground, hp]
    case ended =>
      refine .rouse ?_
      exact polled.of_eq rfl rfl rfl (Nat.le_refl _)
    case launching =>
      refine .rouse (.launch ?_ known)
      exact polled.of_eq rfl rfl rfl (Nat.le_refl _)
    case blocked =>
      refine .rouse ?_
      exact polled.arm.of_eq rfl rfl rfl (Nat.le_refl _)
    case again => exact polled.of_eq rfl rfl rfl (Nat.le_refl _)
    case dropping =>
      refine .drop ?_
      exact polled.of_eq rfl rfl rfl (Nat.le_refl _)

/-- **When another task goes on.** -/
theorem spares_runTask (known : n < w.fresh) (other : t.number ≠ n) :
    Spares n w (w.runTask t) := by
  cases hp : w.scene.poll w.isAlive t.number t.activity with
  | mk scene poll =>
    have polled : Spares n w { w with scene } := .poll hp
    have ended : ∀ {w' : World} (answer : Answer), Spares n w w' → Spares n w
        { w' with
          tasks := w'.tasks.filter fun u => u.number ≠ t.number
          finished := w'.finished ++ [(t.number, answer)]
          focus := none }.rouse := by
      intro w' answer H
      refine .rouse ?_
      exact (H.filter other).of_eq rfl rfl rfl (Nat.le_refl _)
    cases poll <;> simp only [runTask, hp]
    case ended answer => exact ended answer polled
    case launching => exact ended .nothing (polled.launch known)
    case blocked deadline activity =>
      refine .rouse ?_
      refine (polled.arm.modifyTask (fun _ _ => rfl) ?_).of_eq rfl rfl rfl (Nat.le_refl _)
      rw [arms_arm.number]
      exact other
    case again => exact polled.modifyTask (fun _ own => own) other
    case dropping =>
      refine .drop ?_
      exact polled.modifyTask (fun _ own => own) other

/-- **What is done from outside** concerns no task, unless it is told to stop. -/
theorem spares_touch (known : n < w.fresh) (touch : w.Touch w') :
    Spares n w w' ∨ w' = w.modifyTask n Task.stopped := by
  cases touch with
  | around same later => exact .inl ((Spares.refl w).of_eq same rfl rfl later)
  | await a => exact .inl ((Spares.refl w).of_eq rfl rfl rfl (Nat.le_succ _))
  | add a => exact .inl ((Spares.refl w).addTask known)
  | stop k =>
    by_cases own : k = n
    · exact .inr (own ▸ rfl)
    · refine .inl ((Spares.refl w).modifyTask (fun u hu => ?_) own)
      unfold Task.stopped
      split <;> exact hu
  | rouse => exact .inl (Spares.refl w).rouse

/-! ## What a task does itself -/

/-- What is the same when nothing but the order of turns has changed. -/
structure SameTasks (w w' : World) : Prop where
  scene : w'.scene = w.scene
  tasks : w'.tasks = w.tasks
  fresh : w'.fresh = w.fresh

theorem SameTasks.taskOf? (H : SameTasks w w') : w'.taskOf? n = w.taskOf? n := by
  rw [World.taskOf?, World.taskOf?, H.tasks]

theorem sameTasks_wake : SameTasks w (w.wake k) := by
  unfold wake
  split <;> exact ⟨rfl, rfl, rfl⟩

theorem sameTasks_foldl_wake {β : Type} {f : β → Nat} {bs : List β} :
    SameTasks w (bs.foldl (fun w b => w.wake (f b)) w) := by
  induction bs generalizing w with
  | nil => exact ⟨rfl, rfl, rfl⟩
  | cons b bs ih =>
    have first := sameTasks_wake (w := w) (k := f b)
    have rest := ih (w := w.wake (f b))
    exact ⟨rest.scene.trans first.scene, rest.tasks.trans first.tasks, rest.fresh.trans first.fresh⟩

theorem sameTasks_rouse : SameTasks w w.rouse :=
  have woken : SameTasks w ((w.tasks.filter w.isCalled).foldl (fun w t => w.wake t.number) w) :=
    sameTasks_foldl_wake
  ⟨woken.scene, woken.tasks, woken.fresh⟩

section

variable {scene : Scene} (own : w.taskOf? n = some t)
include own

/-- A task that has ended is gone. -/
theorem runTask_of_ended {answer : Answer}
    (hp : w.scene.poll w.isAlive t.number t.activity = (scene, .ended answer)) :
    (w.runTask t).taskOf? n = none ∧ (w.runTask t).fresh = w.fresh := by
  have number := number_of_taskOf? own
  simp only [runTask, hp]
  refine ⟨?_, sameTasks_rouse.fresh⟩
  rw [sameTasks_rouse.taskOf?]
  simp [taskOf?, number]

/-- A task that goes on at once keeps its turn. -/
theorem runTask_of_again
    (hp : w.scene.poll w.isAlive t.number t.activity = (scene, .again a)) :
    (w.runTask t).taskOf? n = some { t with activity := a, timer := none } ∧
      (w.runTask t).focus = w.focus ∧ (w.runTask t).scene = scene ∧
      (w.runTask t).fresh = w.fresh := by
  simp only [runTask, hp]
  refine ⟨?_, rfl, rfl, rfl⟩
  rw [taskOf?_modifyTask (by exact fun _ hu => hu), if_pos (number_of_taskOf? own)]
  exact congrArg (Option.map _) own

/-- A task that waits has a timer. -/
theorem runTask_of_blocked {d : Nat}
    (hp : w.scene.poll w.isAlive t.number t.activity = (scene, .blocked d a)) :
    ∃ u, (w.runTask t).taskOf? n = some u ∧ u.activity = a ∧
      (u.timer.any fun timer => timer.deadline = d) = true ∧
      (w.runTask t).scene = scene ∧ w.fresh ≤ (w.runTask t).fresh := by
  have number := number_of_taskOf? own
  simp only [runTask, hp]
  have arms := arms_arm (w := { w with scene }) (t := { t with activity := a }) (d := d)
  generalize { w with scene }.arm { t with activity := a } d = armed at arms ⊢
  refine ⟨armed.2, ?_, arms.activity, arms.timer, ?_, ?_⟩
  · rw [sameTasks_rouse.taskOf?]
    have found : armed.1.taskOf? n = some t := by rw [taskOf?, arms.tasks]; exact own
    refine (taskOf?_modifyTask fun _ _ => rfl).trans ?_
    rw [if_pos (arms.number.trans number), found]
    rfl
  · exact sameTasks_rouse.scene.trans arms.scene
  · rw [sameTasks_rouse.fresh]
    exact arms.fresh

end

/-! ## Time passes -/

theorem mem_ready_wake : k ∈ (w.wake k).ready := by
  unfold wake
  split
  · assumption
  · exact List.mem_append_right _ (List.mem_singleton_self k)

theorem mem_ready_foldl_wake {β : Type} {f : β → Nat} {bs : List β}
    (h : n ∈ w.ready ∨ ∃ b ∈ bs, f b = n) : n ∈ (bs.foldl (fun w b => w.wake (f b)) w).ready := by
  induction bs generalizing w with
  | nil => exact h.resolve_right fun ⟨_, hb, _⟩ => absurd hb nofun
  | cons b bs ih =>
    refine ih ?_
    rcases h with h | ⟨c, hc, own⟩
    · exact .inl ((Spares.refl w).wake.ready h)
    · rcases List.mem_cons.1 hc with rfl | hc
      · exact .inl (own ▸ mem_ready_wake)
      · exact .inr ⟨c, hc, own⟩

/-- What changes when time passes: the time, the timers, and who can go on. -/
structure PassesTo (d : Nat) (w w' : World) : Prop where
  elapsed : w'.scene.elapsed = max w.scene.elapsed d
  tasks : w'.tasks = w.tasks.map (Task.passedTo d)
  fresh : w'.fresh = w.fresh
  ready : ∀ t ∈ w.tasks, (t.timer.any fun timer => timer.deadline ≤ d) = true →
    t.number ∈ w'.ready

/-- **Time passes** up to the next moment for which somebody waits. -/
theorem passesTo_passTo {d : Nat} : PassesTo d w (w.passTo d) := by
  let isDue (timer : Timer) : Bool := timer.deadline ≤ d
  let due := (w.timers.filter fun t => isDue t.1).mergeSort fun a b => a.1.isBefore b.1
  let later := { w with scene := { w.scene with elapsed := max w.scene.elapsed d } }
  let woken := due.foldl (fun w t => w.wake t.2) later
  have same : SameTasks later woken := sameTasks_foldl_wake
  have passed : PassesTo d w { woken with tasks := woken.tasks.map (Task.passedTo d) } := by
    refine ⟨?_, ?_, same.fresh, fun t ht late => ?_⟩
    · exact congrArg Scene.elapsed same.scene
    · exact congrArg (List.map _) same.tasks
    · refine mem_ready_foldl_wake (.inr ?_)
      obtain ⟨timer, ht', late⟩ := (Option.any_eq_true _ _).1 late
      refine ⟨(timer, t.number), List.mem_mergeSort.2 (List.mem_filter.2 ⟨?_, late⟩), rfl⟩
      exact List.mem_filterMap.2 ⟨t, ht, by rw [ht']; rfl⟩
  simp only [passTo]
  split
  · split
    · exact ⟨passed.elapsed, passed.tasks, passed.fresh, passed.ready⟩
    · exact passed
  · exact passed

/-- Time does not pass beyond a moment for which somebody waits. -/
theorem nextDeadline?_le {d e : Nat} (own : w.taskOf? n = some t)
    (waits : (t.timer.any fun timer => timer.deadline = e) = true)
    (next : w.nextDeadline? = some d) : d ≤ e := by
  obtain ⟨timer, ht, same⟩ := (Option.any_eq_true _ _).1 waits
  obtain rfl := of_decide_eq_true same
  refine (List.min?_eq_some_iff.1 next).2 _ (List.mem_map_of_mem (List.mem_append_right _ ?_))
  refine List.mem_map.2 ⟨(timer, t.number), ?_, rfl⟩
  exact List.mem_filterMap.2 ⟨t, mem_of_taskOf? own, by rw [ht]; rfl⟩

/-- A task among others when time passes. -/
theorem PassesTo.taskOf? {d : Nat} (H : PassesTo d w w') :
    w'.taskOf? n = (w.taskOf? n).map (Task.passedTo d) := by
  simp only [World.taskOf?, H.tasks, List.find?_map, Function.comp_def, Task.number_passedTo]

/-! ## Numbers -/

/-- The next number for a task is that of none, nor are those after it. -/
def IsNumbered (w : World) : Prop := ∀ t ∈ w.tasks, t.number < w.fresh

namespace IsNumbered

variable (N : w.IsNumbered)
include N

/-- There are no tasks with other numbers than before. -/
theorem of_tasks (tasks : ∀ t ∈ w'.tasks, ∃ u ∈ w.tasks, u.number = t.number)
    (fresh : w.fresh ≤ w'.fresh) : w'.IsNumbered := by
  intro t ht
  obtain ⟨u, hu, same⟩ := tasks t ht
  exact same ▸ Nat.lt_of_lt_of_le (N u hu) fresh

theorem of_eq (tasks : w'.tasks = w.tasks) (fresh : w.fresh ≤ w'.fresh) : w'.IsNumbered :=
  N.of_tasks (fun t ht => ⟨t, tasks ▸ ht, rfl⟩) fresh

theorem modifyTask {f : Task → Task} (hf : ∀ u, u.number = k → (f u).number = k) :
    (w.modifyTask k f).IsNumbered := by
  refine N.of_tasks (fun t ht => ?_) (Nat.le_refl _)
  obtain ⟨u, hu, rfl⟩ := List.mem_map.1 ht
  refine ⟨u, hu, ?_⟩
  split
  · rename_i own
    rw [hf u own, own]
  · rfl

theorem addTask : (w.addTask a).IsNumbered := by
  intro t ht
  rcases List.mem_append.1 ht with old | new
  · exact Nat.lt_succ_of_lt (N t old)
  · obtain rfl := List.mem_singleton.1 new
    exact Nat.lt_succ_self _

theorem drop : (w.drop k).IsNumbered := by
  simp only [World.drop]
  refine of_eq (N.modifyTask (k := k) fun _ => ?_) sameTasks_wake.tasks
    (Nat.le_of_eq sameTasks_wake.fresh.symm)
  exact id

theorem rouse : w.rouse.IsNumbered :=
  N.of_eq sameTasks_rouse.tasks (Nat.le_of_eq sameTasks_rouse.fresh.symm)

theorem arm {d : Nat} : (w.arm t d).1.IsNumbered := N.of_eq arms_arm.tasks arms_arm.fresh

theorem runForeground : (w.runForeground t).IsNumbered := by
  cases hp : w.scene.poll w.isAlive t.number t.activity with
  | mk scene poll =>
    have polled : { w with scene }.IsNumbered := N
    cases poll <;> simp only [World.runForeground, hp]
    case ended => exact rouse (by exact polled)
    case launching => exact rouse (addTask (by exact polled))
    case blocked => exact rouse (by exact polled.arm)
    case again => exact polled
    case dropping => exact drop (by exact polled)

theorem runTask : (w.runTask t).IsNumbered := by
  cases hp : w.scene.poll w.isAlive t.number t.activity with
  | mk scene poll =>
    have polled : { w with scene }.IsNumbered := N
    have ended : ∀ {w' : World} {finished : List (Nat × Answer)}, w'.IsNumbered →
        { w' with
          tasks := w'.tasks.filter fun u => u.number ≠ t.number
          finished
          focus := none }.rouse.IsNumbered := by
      intro w' finished N'
      refine rouse (N'.of_tasks (fun u hu => ?_) (Nat.le_refl _))
      exact ⟨u, (List.mem_filter.1 hu).1, rfl⟩
    cases poll <;> simp only [World.runTask, hp]
    case ended => exact ended polled
    case launching => exact ended (addTask (by exact polled))
    case blocked => exact rouse (by exact polled.arm.modifyTask fun _ _ => rfl)
    case again => exact polled.modifyTask fun _ own => own
    case dropping => exact drop (polled.modifyTask fun _ own => own)

theorem turn (turn : Turn w w') : w'.IsNumbered := by
  cases turn with
  | next next =>
    cases change_of_next? next with
    | foreground => exact N.runForeground
    | task => exact N.runTask
    | idle | gone | pick | wake => exact N
    | @pass deadline =>
      have passes : PassesTo deadline w (w.passTo deadline) := passesTo_passTo
      refine N.of_tasks (fun t ht => ?_) (Nat.le_of_eq passes.fresh.symm)
      rw [passes.tasks] at ht
      obtain ⟨u, hu, rfl⟩ := List.mem_map.1 ht
      exact ⟨u, hu, Task.number_passedTo.symm⟩
  | touch _ touch =>
    cases touch with
    | around _ later => exact N.of_eq rfl later
    | await => exact N.of_eq rfl (Nat.le_succ _)
    | add => exact N.addTask
    | stop n =>
      refine N.modifyTask fun u own => ?_
      unfold Task.stopped
      split <;> exact own
    | rouse => exact N.rouse

end IsNumbered

/-- **Numbers are given once.** -/
theorem isNumbered_of_passes {start : World} (empty : start.tasks = []) (run : Passes start w) :
    w.IsNumbered := by
  induction run with
  | refl =>
    intro t ht
    rw [empty] at ht
    contradiction
  | tail _ turn ih => exact ih.turn turn

end World

end LeasePool
