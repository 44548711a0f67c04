import LeasePool.Proofs.World.Crowd

/-!
# What moves mean for a controller

What can be seen of a controller in the moves of a crowd: that it is launched, begins cycles and
takes steps in them, is told to stop, leaves its loop, and that its release is attempted. Of the
moves that are made few concern it: its own, and those of whoever waits for it. All others leave it,
its handle and whoever waits for it alone.
-/

namespace LeasePool

/-! ## Signs -/

/-- What is seen of a controller. -/
inductive Sign where
  | launched (l : Launch) (time : Nat)
  /-- A cycle begins at a tick. -/
  | began (time : Nat)
  /-- A cycle that has begun at a tick takes a step. -/
  | worked
  /-- The controller is told to stop by somebody who waits for it up to the deadline. -/
  | stopped (waiter deadline : Nat)
  /-- The controller leaves its loop, other than by a crash. -/
  | left
  /-- Somebody who has waited for the controller attempts the release. -/
  | released

/-- Whether a task has ended with nothing to answer. -/
def Poll.isLeft : Poll → Bool
  | ended .nothing => true
  | _ => false

/-- What is seen of the loop of a controller when it goes on. -/
def Scene.signs (s : Scene) : Activity → Poll → List Sign
  | .controlling _ stopping phase, p =>
    let begins := phase.begins stopping s.elapsed
    (if begins then [.began s.elapsed] else []) ++
      (if begins || phase.goesOn s.elapsed then [.worked] else []) ++
      if p.isLeft then [.left] else []
  | _, _ => []

/-- Whether a release is under way when a task has gone on. -/
def Poll.isReleasing (p : Poll) : Bool :=
  match p.rest? with
  | some (.releasing ..) => true
  | _ => false

namespace Crowd

/-- What is seen of the controller with a number when a controller is started. -/
def signsOfLaunch (w : Crowd) (n : Nat) (l : Launch) : List Sign :=
  if w.fresh = n then [.launched l w.scene.elapsed] else []

/-- What is seen of the controller with a number in a move. -/
def signs (w : Crowd) (n : Nat) : Move → List Sign
  | .go k =>
    match w.tasks k with
    | none => []
    | some a =>
      let poll := (w.scene.poll w.isAlive k a).2
      (if k = n then w.scene.signs a poll else []) ++
        (if a.joins? = some n ∧ poll.isReleasing then [.released] else []) ++
        poll.launches?.elim [] (w.signsOfLaunch n)
  | .launch l => w.signsOfLaunch n l
  | .shutDown name grace =>
    match w.handles name with
    | none => []
    | some h => if h.task = n then [.stopped w.fresh (w.scene.elapsed + grace)] else []
  | _ => []

end Crowd

namespace Crowd

variable {w w' w'' : Crowd} {n k : Nat} {a b : Activity} {m : Move}

/-! ## What a move means for one number -/

/-- The controller of a handle. -/
def handled? (w : Crowd) (name : String) : Option Nat := (w.handles name).map (·.task)

/-- What is known about a number, other than of its own task, is still known. -/
structure Spares (n : Nat) (w w' : Crowd) : Prop where
  fresh : w.fresh ≤ w'.fresh
  elapsed : w.scene.elapsed ≤ w'.scene.elapsed
  handled : ∀ name, w'.handled? name = some n → w.handled? name = some n
  joins : ∀ k, w'.joins? k = some n → w.joins? k = some n
  waits : ∀ k, w.joins? k = some n → w'.tasks k = w.tasks k

namespace Spares

theorem refl (w : Crowd) : Spares n w w :=
  ⟨Nat.le_refl _, Nat.le_refl _, fun _ => id, fun _ => id, fun _ _ => rfl⟩

theorem trans (H : Spares n w w') (K : Spares n w' w'') : Spares n w w'' where
  fresh := Nat.le_trans H.fresh K.fresh
  elapsed := Nat.le_trans H.elapsed K.elapsed
  handled name h := H.handled name (K.handled name h)
  joins k h := H.joins k (K.joins k h)
  waits k h := by
    have same := H.waits k h
    rw [← same]
    refine K.waits k ?_
    rwa [Crowd.joins?, same]

/-- No task and no handle is changed. -/
theorem of_eq (fresh : w.fresh ≤ w'.fresh) (elapsed : w.scene.elapsed ≤ w'.scene.elapsed)
    (tasks : w'.tasks = w.tasks) (handles : w'.handles = w.handles) : Spares n w w' where
  fresh := fresh
  elapsed := elapsed
  handled name := by
    rw [handled?, handles]
    exact id
  joins k := by
    rw [Crowd.joins?, tasks]
    exact id
  waits k _ := by rw [tasks]

/-- A task is changed that does not wait for the controller, before or after. -/
theorem setTask {c : Option Activity} (before : w.joins? k ≠ some n)
    (after : c.bind Activity.joins? ≠ some n) : Spares n w (w.setTask k c) where
  fresh := Nat.le_refl _
  elapsed := Nat.le_refl _
  handled _ := id
  joins j h := by
    rw [Crowd.joins?, tasks_setTask] at h
    split at h
    · exact absurd h after
    · exact h
  waits j h := by
    rw [tasks_setTask, if_neg]
    rintro rfl
    exact before h

/-- A handle is dropped, or one of another controller is taken in its place. -/
theorem setHandle {name : String} {h : Option Handle} (other : h.map (·.task) ≠ some n) :
    Spares n w (w.setHandle name h) where
  fresh := Nat.le_refl _
  elapsed := Nat.le_refl _
  handled other' here := by
    rw [handled?, handles_setHandle] at here
    split at here
    · exact absurd here other
    · exact here
  joins _ := id
  waits _ _ := rfl

/-- A task is added that does not wait for the controller. -/
theorem addTask (free : w.tasks w.fresh = none) (other : a.joins? ≠ some n) :
    Spares n w (w.addTask a) := by
  have before : w.joins? w.fresh ≠ some n := by
    rw [Crowd.joins?, free]
    exact (Option.some_ne_none n).symm
  have set : Spares n w (w.setTask w.fresh (some a)) := setTask before other
  exact set.trans (of_eq (Nat.le_succ _) (Nat.le_refl _) rfl rfl)

/-- Another controller is started. -/
theorem launch {l : Launch} (free : w.tasks w.fresh = none) (other : w.fresh ≠ n) :
    Spares n w (w.launch l) := by
  have set : Spares n w (w.setHandle l.handle (some ⟨w.fresh, l.controller⟩)) :=
    setHandle fun own => other (Option.some.inj own)
  refine set.trans (addTask ?_ (Option.some_ne_none n).symm)
  exact free

theorem withScene {scene : Scene} (elapsed : scene.elapsed = w.scene.elapsed) :
    Spares n w { w with scene } :=
  of_eq (Nat.le_refl _) (Nat.le_of_eq elapsed.symm) rfl rfl

end Spares

theorem tasks_launch {l : Launch} : (w.launch l).tasks n =
    if n = w.fresh then some (.controlling l.controller false (.created l.delay))
    else w.tasks n := tasks_addTask

theorem handled?_launch {l : Launch} {name : String} : (w.launch l).handled? name =
    if name = l.handle then some w.fresh else w.handled? name := by
  simp only [handled?, Crowd.launch, handles_addTask, handles_setHandle]
  split <;> rfl

/-- What a move means for the task with a number. -/
inductive Concerns (n : Nat) (w w' : Crowd) : List Sign → Prop
  /-- Nothing. -/
  | others (spares : Spares n w w') (task : w'.tasks n = w.tasks n) : Concerns n w w' []
  /-- The number is given to a task that is no controller. -/
  | given (number : n = w.fresh) (spares : Spares n w w')
    (task : ∀ a, w'.tasks n = some a → a.isControlling = false) : Concerns n w w' []
  /-- The number is given to a controller. -/
  | launched {l : Launch} (number : n = w.fresh) (fresh : n < w'.fresh)
    (elapsed : w'.scene.elapsed = w.scene.elapsed)
    (task : w'.tasks n = some (.controlling l.controller false (.created l.delay)))
    (handled : ∀ name, w'.handled? name = some n → name = l.handle ∨ w.handled? name = some n)
    (joins : ∀ k, w'.joins? k = some n → w.joins? k = some n) :
    Concerns n w w' [.launched l w.scene.elapsed]
  /-- The task goes on. -/
  | own {a : Activity} (spares : Spares n w w') (task : w.tasks n = some a)
    (after : w'.tasks n = (w.scene.poll w.isAlive n a).2.rest?) :
    Concerns n w w' (w.scene.signs a (w.scene.poll w.isAlive n a).2)
  /-- The task is told to stop, and somebody waits for it. -/
  | stopped {name : String} {deadline : Nat} (fresh : w.fresh ≤ w'.fresh)
    (elapsed : w'.scene.elapsed = w.scene.elapsed)
    (task : w'.tasks n = (w.tasks n).map Activity.stopped) (handle : w.handled? name = some n)
    (handled : ∀ other, w'.handled? other = some n → other ≠ name ∧ w.handled? other = some n)
    (waiter : ∃ c grace start, w'.tasks w.fresh = some (.joining n c grace deadline start))
    (joins : ∀ k, w'.joins? k = some n → k = w.fresh ∨ w.joins? k = some n) :
    Concerns n w w' [.stopped w.fresh deadline]
  /-- Somebody who has waited for the task attempts the release. -/
  | released {k : Nat} (fresh : w.fresh ≤ w'.fresh)
    (task : w'.tasks n = (w.tasks n).map Activity.givenUp) (waited : w.joins? k = some n)
    (handled : ∀ name, w'.handled? name = some n → w.handled? name = some n)
    (joins : ∀ j, w'.joins? j = some n → j ≠ k ∧ w.joins? j = some n) :
    Concerns n w w' [.released]

section

variable {scene : Scene} {poll : Poll} {l : Launch} (h : w.tasks k = some a)
  (hp : w.scene.poll w.isAlive k a = (scene, poll))
include h hp

theorem turn_go : w.turn (.go k) = { w with scene }.advance k poll := by
  simp only [Crowd.turn, h, hp]

theorem signs_go : w.signs n (.go k) = (if k = n then w.scene.signs a poll else []) ++
    (if a.joins? = some n ∧ poll.isReleasing then [.released] else []) ++
    poll.launches?.elim [] (w.signsOfLaunch n) := by
  simp only [signs, h, hp]

omit h in
theorem elapsed_of_poll : scene.elapsed = w.scene.elapsed :=
  (congrArg (fun p => p.1.elapsed) hp).symm.trans Scene.elapsed_poll

/-- Somebody goes on who does not wait for the task with the number. -/
theorem spares_go {c : Option Activity} (before : a.joins? ≠ some n)
    (after : c.bind Activity.joins? ≠ some n) : Spares n w ({ w with scene }.setTask k c) := by
  refine (Spares.withScene (elapsed_of_poll hp)).trans (.setTask ?_ after)
  change (w.tasks k).bind Activity.joins? ≠ some n
  rwa [h]

/-- Somebody goes on who starts no controller and drops none. -/
theorem concerns_go (drops : poll.drops? = none) (launches : poll.launches? = none)
    (before : a.joins? ≠ some n) (after : poll.rest?.bind Activity.joins? ≠ some n) :
    Concerns n w (w.turn (.go k)) (w.signs n (.go k)) := by
  have spares := spares_go h hp before after
  have turn : w.turn (.go k) = { w with scene }.setTask k poll.rest? := by
    rw [turn_go h hp]
    cases poll with
    | ended | blocked | again => rfl
    | launching | dropping => contradiction
  rw [turn, signs_go h hp, launches]
  by_cases own : k = n
  · subst own
    have same : (w.scene.poll w.isAlive k a).2 = poll := congrArg Prod.snd hp
    simp only [before, false_and, if_false, if_true, List.append_nil, Option.elim_none, ← same]
    refine .own (same ▸ spares) h ?_
    rw [tasks_setTask, if_pos rfl]
  · simp only [own, before, false_and, if_false, List.append_nil, Option.elim_none]
    refine .others spares ?_
    rw [tasks_setTask, if_neg (Ne.symm own)]

end

/-- A controller is started, after what has nothing to do with its number. -/
theorem concerns_launch {l : Launch} (spares : Spares n w w') (fresh : w'.fresh = w.fresh)
    (elapsed : w'.scene.elapsed = w.scene.elapsed) (task : w'.tasks n = w.tasks n)
    (free : w'.tasks w'.fresh = none) : Concerns n w (w'.launch l) (w.signsOfLaunch n l) := by
  unfold signsOfLaunch
  by_cases number : w.fresh = n
  · subst number
    rw [if_pos rfl]
    have known : w.fresh < (w'.launch l).fresh := fresh ▸ Nat.lt_succ_self _
    refine .launched rfl known elapsed ?_ ?_ ?_
    · rw [tasks_launch, if_pos fresh.symm]
    · intro name here
      rw [handled?_launch] at here
      split at here
      · rename_i own
        exact .inl own
      · exact .inr (spares.handled name here)
    · intro k here
      refine spares.joins k ?_
      rw [joins?, tasks_launch] at here
      split at here
      · contradiction
      · exact here
  · rw [if_neg number]
    rw [← fresh] at number
    refine .others (spares.trans (.launch free number)) ?_
    rw [tasks_launch, if_neg (Ne.symm number), task]

/-- Controllers wait for nobody. -/
theorem joins?_of_isControlling (loop : ∀ a, w.tasks k = some a → a.isControlling = true) :
    w.joins? k = none := by
  cases h : w.tasks k with
  | none => rw [joins?, h]; rfl
  | some a =>
    have kind := loop a h
    rw [joins?, h]
    cases a with
    | controlling => rfl
    | _ => contradiction

theorem joins?_givenUp (loop : ∀ a, w.tasks k = some a → a.isControlling = true) :
    ((w.tasks k).map Activity.givenUp).bind Activity.joins? = none := by
  cases h : w.tasks k with
  | none => rfl
  | some a =>
    have kind := loop a h
    cases a with
    | controlling c stopping phase => cases phase <;> rfl
    | _ => contradiction

/-- A controller is told to stop, and somebody waits for it. -/
theorem concerns_shutDown {name : String} {h : Handle} {grace : Nat}
    (handle : w.handles name = some h) (free : w.tasks w.fresh = none)
    (loop : ∀ a, w.tasks h.task = some a → a.isControlling = true) (known : h.task < w.fresh) :
    Concerns n w ((w.setHandle name none).shutDown h grace)
      (if h.task = n then [.stopped w.fresh (w.scene.elapsed + grace)] else []) := by
  have tasks : ∀ k, ((w.setHandle name none).shutDown h grace).tasks k =
      if k = w.fresh then
        some (.joining h.task h.controller grace (w.scene.elapsed + grace) w.scene.elapsed)
      else if k = h.task then (w.tasks h.task).map Activity.stopped else w.tasks k := fun k => by
    simp [shutDown]
  have outside : w.joins? h.task = none := joins?_of_isControlling loop
  have stopped : ((w.tasks h.task).map Activity.stopped).bind Activity.joins? = none := by
    rw [← outside, joins?]
    cases w.tasks h.task <;> simp
  split
  · rename_i own
    subst own
    refine .stopped (Nat.le_succ _) rfl ?_ (by rw [handled?, handle]; rfl) ?_ ?_ ?_
    · rw [tasks, if_neg (Nat.ne_of_lt known), if_pos rfl]
    · intro other here
      have here : ((w.setHandle name none).handles other).map (·.task) = some h.task := here
      rw [handles_setHandle] at here
      split at here
      · contradiction
      · exact ⟨‹_›, here⟩
    · exact ⟨_, _, _, by rw [tasks, if_pos rfl]⟩
    · intro k here
      rw [joins?, tasks] at here
      split at here
      · exact .inl ‹_›
      · split at here
        · rw [stopped] at here
          contradiction
        · exact .inr here
  · rename_i other
    have spares : Spares n w ((w.setHandle name none).shutDown h grace) := by
      refine (Spares.setHandle (h := none) (Option.some_ne_none n).symm).trans
        (.trans (.setTask (k := h.task) ?_ ?_) (.addTask ?_ ?_))
      · exact fun here => absurd (outside.symm.trans here).symm (Option.some_ne_none n)
      · rw [tasks_setHandle, stopped]
        exact (Option.some_ne_none n).symm
      · rw [tasks_setTask, if_neg]
        · exact free
        · exact (Nat.ne_of_lt known).symm
      · exact fun here => other (Option.some.inj here)
    by_cases number : n = w.fresh
    · refine .given number spares fun a ha => ?_
      rw [tasks, if_pos number] at ha
      exact Option.some.inj ha ▸ rfl
    · refine .others spares ?_
      rw [tasks, if_neg number, if_neg (Ne.symm other)]

/-- What is known about handles and about those who wait. -/
structure IsKept (w : Crowd) : Prop where
  numbered : ∀ n a, w.tasks n = some a → n < w.fresh
  handled : ∀ name n, w.handled? name = some n →
    n < w.fresh ∧ ∀ a, w.tasks n = some a → a.isControlling = true
  joined : ∀ k n, w.joins? k = some n → ∀ a, w.tasks n = some a → a.isControlling = true

theorem IsKept.tasks_fresh (K : w.IsKept) : w.tasks w.fresh = none := by
  cases h : w.tasks w.fresh with
  | none => rfl
  | some a => exact absurd (K.numbered _ a h) (Nat.lt_irrefl _)

section

variable {task grace deadline start next deadline' start' : Nat} {c : Controller} {scene : Scene}
  {run : Running Unit} (h : w.tasks k = some (.joining task c grace deadline start))
include h

theorem joins?_of_joining : w.joins? k = some task := by
  rw [joins?, h]
  rfl

/-- Somebody still waits for a controller. -/
theorem concerns_waiting {d : Nat}
    (hp : w.scene.poll w.isAlive k (.joining task c grace deadline start) =
      (scene, .blocked d (.joining task c grace deadline start))) :
    Concerns n w (w.turn (.go k)) (w.signs n (.go k)) := by
  have signs : w.signs n (.go k) = [] := by
    rw [signs_go h hp]
    simp [Scene.signs, Poll.isReleasing, Poll.rest?, Poll.launches?]
  have same : (w.turn (.go k)).tasks = w.tasks := by
    rw [turn_go h hp]
    funext j
    change (setTask _ k _).tasks j = _
    rw [tasks_setTask]
    split
    · rename_i own
      rw [own, h]
    · rfl
  rw [signs]
  refine .others (.of_eq ?_ ?_ same ?_) (congrFun same n) <;> rw [turn_go h hp]
  · exact Nat.le_refl _
  · exact Nat.le_of_eq (elapsed_of_poll hp).symm
  · rfl

/-- Somebody has waited for a controller until it ended. -/
theorem concerns_joined (gone : w.tasks task = none)
    (hp : w.scene.poll w.isAlive k (.joining task c grace deadline start) =
      (scene, .again (.releasing next run deadline' start'))) :
    Concerns n w (w.turn (.go k)) (w.signs n (.go k)) := by
  by_cases own : task = n
  · subst own
    have other : k ≠ task := by
      rintro rfl
      rw [gone] at h
      contradiction
    have signs : w.signs task (.go k) = [.released] := by
      rw [signs_go h hp]
      simp [other, Activity.joins?, Poll.isReleasing, Poll.rest?, Poll.launches?]
    rw [signs, turn_go h hp]
    refine .released (Nat.le_refl _) ?_ (joins?_of_joining h) (fun _ => id) fun j here => ?_
    · change (setTask _ k _).tasks task = _
      rw [tasks_setTask, if_neg (Ne.symm other)]
      change w.tasks task = _
      rw [gone]
      rfl
    · change ((setTask _ k _).tasks j).bind _ = _ at here
      rw [tasks_setTask] at here
      split at here
      · contradiction
      · exact ⟨‹_›, here⟩
  · exact concerns_go h hp rfl rfl (fun here => own (Option.some.inj here))
      (Option.some_ne_none n).symm

/-- Somebody has waited long enough for a controller, and drops it. -/
theorem concerns_overdue (K : w.IsKept)
    (hp : w.scene.poll w.isAlive k (.joining task c grace deadline start) =
      (scene, .dropping task (.releasing next run deadline' start'))) :
    Concerns n w (w.turn (.go k)) (w.signs n (.go k)) := by
  have joins := joins?_of_joining h
  have loop := K.joined k task joins
  have other : task ≠ k := by
    rintro rfl
    exact absurd (loop _ h) Bool.false_ne_true
  have tasks : ∀ j, (w.turn (.go k)).tasks j =
      if j = task then (w.tasks task).map Activity.givenUp
      else if j = k then some (.releasing next run deadline' start') else w.tasks j := by
    intro j
    rw [turn_go h hp]
    simp [advance, drop, other]
  have outside : ((w.tasks task).map Activity.givenUp).bind Activity.joins? = none :=
    joins?_givenUp loop
  have signs : w.signs n (.go k) = if task = n then [.released] else [] := by
    rw [signs_go h hp]
    simp [Scene.signs, Activity.joins?, Poll.isReleasing, Poll.rest?, Poll.launches?]
  rw [signs]
  by_cases own : task = n
  · subst own
    rw [if_pos rfl]
    refine .released ?_ ?_ joins ?_ fun j here => ?_
    · rw [turn_go h hp]
      exact Nat.le_refl _
    · rw [tasks, if_pos rfl]
    · rw [turn_go h hp]
      exact fun _ => id
    · rw [joins?, tasks] at here
      split at here
      · rw [outside] at here
        contradiction
      · split at here
        · contradiction
        · exact ⟨‹_›, here⟩
  · rw [if_neg own]
    have spares : Spares n w (w.turn (.go k)) := by
      rw [turn_go h hp]
      refine (spares_go h hp (fun here => own (Option.some.inj here)) ?_).trans
        (.setTask (k := task) ?_ ?_)
      · exact (Option.some_ne_none n).symm
      · rw [joins?, tasks_setTask, if_neg other]
        change w.joins? task ≠ some n
        rw [joins?_of_isControlling loop]
        exact (Option.some_ne_none n).symm
      · rw [tasks_setTask, if_neg other]
        change ((w.tasks task).map Activity.givenUp).bind Activity.joins? ≠ some n
        rw [outside]
        exact (Option.some_ne_none n).symm
    by_cases here : k = n
    · subst here
      refine .own spares h ?_
      rw [tasks, if_neg (Ne.symm own), if_pos rfl, hp]
      rfl
    · refine .others spares ?_
      rw [tasks, if_neg (Ne.symm own), if_neg (Ne.symm here)]

/-- Somebody who waits for a controller goes on. -/
theorem concerns_joining (K : w.IsKept) :
    Concerns n w (w.turn (.go k)) (w.signs n (.go k)) := by
  have proceeds : w.scene.Proceeds w.isAlive _
      (w.scene.poll w.isAlive k (.joining task c grace deadline start)).2 :=
    w.scene.proceeds_poll w.isAlive k _
  cases hp : w.scene.poll w.isAlive k (.joining task c grace deadline start) with
  | mk scene poll =>
  rw [hp] at proceeds
  cases proceeds with
  | ordinary kind => contradiction
  | waits => exact concerns_waiting h hp
  | joined gone =>
    refine concerns_joined h ?_ hp
    simpa [isAlive] using gone
  | overdue => exact concerns_overdue h K hp

end

/-- A task goes on that is not part of the life of a controller. -/
theorem concerns_ordinary {scene : Scene} {poll : Poll} (K : w.IsKept) (h : w.tasks k = some a)
    (hp : w.scene.poll w.isAlive k a = (scene, poll)) (kind : a.isOrdinary = true)
    (after : ∀ b, poll.rest? = some b → b.isOrdinary = true) (drops : poll.drops? = none) :
    Concerns n w (w.turn (.go k)) (w.signs n (.go k)) := by
  have outside : ∀ {a : Activity}, a.isOrdinary = true → a.joins? = none := by
    intro a kind
    cases a with
    | joining => contradiction
    | _ => rfl
  have before : a.joins? ≠ some n := by
    rw [outside kind]
    exact (Option.some_ne_none n).symm
  cases launches : poll.launches? with
  | none =>
    refine concerns_go h hp drops launches before ?_
    cases rest : poll.rest? with
    | none => exact (Option.some_ne_none n).symm
    | some b =>
      rw [Option.bind_some, outside (after b rest)]
      exact (Option.some_ne_none n).symm
  | some l =>
    obtain rfl : poll = .launching l := by
      cases poll with
      | launching => exact congrArg _ (Option.some.inj launches)
      | _ => contradiction
    have spares : Spares n w ({ w with scene }.setTask k none) :=
      spares_go h hp before (Option.some_ne_none n).symm
    have apart : w.fresh ≠ k := (Nat.ne_of_lt (K.numbered k a h)).symm
    have free : ({ w with scene }.setTask k none).tasks w.fresh = none := by
      rw [tasks_setTask, if_neg apart]
      exact K.tasks_fresh
    have signs : w.signs n (.go k) = w.signsOfLaunch n l := by
      rw [signs_go h hp]
      cases a with
      | controlling => contradiction
      | _ => simp [Scene.signs, Poll.isReleasing, Poll.rest?, launches]
    rw [turn_go h hp, signs]
    by_cases own : n = k
    · subst own
      have unseen : w.signsOfLaunch n l = [] := if_neg apart
      rw [unseen]
      have signs : w.scene.signs a (w.scene.poll w.isAlive n a).2 = [] := by
        cases a with
        | controlling => contradiction
        | _ => rfl
      rw [← signs]
      refine .own (spares.trans (.launch free apart)) h ?_
      rw [hp]
      change (launch _ l).tasks n = none
      simp [tasks_launch, Ne.symm apart]
    · refine concerns_launch spares rfl (elapsed_of_poll hp) ?_ free
      rw [tasks_setTask, if_neg own]

/-- **What a move means for one number.** -/
theorem concerns_turn (K : w.IsKept) (allowed : w.Allows m) :
    Concerns n w (w.turn m) (w.signs n m) := by
  cases m with
  | go k =>
    cases h : w.tasks k with
    | none =>
      simp only [Crowd.turn, signs, h]
      exact .others (.refl w) rfl
    | some a =>
      have proceeds : w.scene.Proceeds w.isAlive a (w.scene.poll w.isAlive k a).2 :=
        w.scene.proceeds_poll w.isAlive k a
      cases hp : w.scene.poll w.isAlive k a with
      | mk scene poll =>
      rw [hp] at proceeds
      cases proceeds with
      | waits | joined | overdue => exact concerns_joining h K
      | ordinary kind after drops => exact concerns_ordinary K h hp kind after drops
      | reaped => exact
        concerns_go h hp rfl rfl (Option.some_ne_none n).symm (Option.some_ne_none n).symm
      | releases after drops launches =>
        refine concerns_go h hp drops launches (Option.some_ne_none n).symm ?_
        cases rest : poll.rest? with
        | none => exact (Option.some_ne_none n).symm
        | some b =>
          obtain ⟨_, _, rfl⟩ := after b rest
          exact (Option.some_ne_none n).symm
      | loops after drops launches =>
        refine concerns_go h hp drops launches (Option.some_ne_none n).symm ?_
        cases rest : poll.rest? with
        | none => exact (Option.some_ne_none n).symm
        | some b =>
          obtain ⟨_, rfl⟩ := after b rest
          exact (Option.some_ne_none n).symm
  | pass time =>
    exact .others (.of_eq (Nat.le_refl _) (Nat.le_max_left _ _) rfl rfl) rfl
  | arrange scene => exact .others (.withScene allowed.elapsed) rfl
  | begin a =>
    have kind : a.isControlling = false ∧ a.joins? = none := by
      cases a with
      | operating | sleeping | awaiting => exact ⟨rfl, rfl⟩
      | joining | releasing | controlling | dropped => exact absurd allowed.1 Bool.false_ne_true
    have spares : Spares n w (w.addTask a) := by
      refine .addTask K.tasks_fresh ?_
      rw [kind.2]
      exact (Option.some_ne_none n).symm
    by_cases number : n = w.fresh
    · refine .given number spares fun b hb => ?_
      change (w.addTask a).tasks n = some b at hb
      rw [tasks_addTask, if_pos number] at hb
      exact Option.some.inj hb ▸ kind.1
    · refine .others spares ?_
      change (w.addTask a).tasks n = _
      rw [tasks_addTask, if_neg number]
  | skip => exact .others (.of_eq (Nat.le_succ _) (Nat.le_refl _) rfl rfl) rfl
  | launch l => exact concerns_launch (.refl w) rfl rfl rfl K.tasks_fresh
  | shutDown name grace =>
    cases handle : w.handles name with
    | none =>
      simp only [Crowd.turn, signs, handle]
      exact .others (.refl w) rfl
    | some h =>
      simp only [Crowd.turn, signs, handle]
      obtain ⟨known, loop⟩ := K.handled name h.task (by rw [handled?, handle]; rfl)
      exact concerns_shutDown handle K.tasks_fresh loop known
  | dropHandle name => exact .others (.setHandle (Option.some_ne_none n).symm) rfl

end Crowd

end LeasePool
