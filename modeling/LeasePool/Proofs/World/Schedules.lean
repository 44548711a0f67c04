import LeasePool.Proofs.World.Lifecycle
import LeasePool.Proofs.World.Runs

/-!
# Worlds are crowds

A world is a crowd in which tasks go on in an order, and in which time passes only when nobody can
go on. All that happens in a world are moves in its crowd, and so is what a step does: so what holds
of all runs of crowds holds of all sequences of steps.
-/

namespace LeasePool

namespace World

/-- The foreground, without its timer. -/
def front? (w : World) : Option (Nat × Activity) := w.foreground.map fun t => (t.number, t.activity)

/-- A task other than the foreground, without its timer. -/
def back? (w : World) (n : Nat) : Option Activity := (w.taskOf? n).map (·.activity)

/-- The tasks of a world, in no order. -/
def crowd (w : World) : Crowd where
  scene := w.scene
  tasks n := ((w.front?.filter fun t => t.1 = n).map (·.2)).or (w.back? n)
  handles name := named? name w.handles
  fresh := w.fresh

/-- The foreground has a number of its own and is no controller. -/
structure IsOrdered (w : World) : Prop where
  apart : ∀ k a, w.front? = some (k, a) → w.back? k = none ∧ a.isControlling = false
  sound : w.crowd.IsSound

/-- What happens in one world, up to another one, are moves in the crowd. -/
structure Plays (w w' : World) : Prop where
  moves : ∃ ms, w.crowd.Allowed ms ∧ w'.crowd = w.crowd.run ms
  ordered : w'.IsOrdered

variable {w w' w'' : World} {n k : Nat} {t : Task} {a b : Activity}

theorem Plays.refl (ordered : w.IsOrdered) : w.Plays w := ⟨⟨[], trivial, rfl⟩, ordered⟩

theorem Plays.trans (H : w.Plays w') (K : w'.Plays w'') : w.Plays w'' := by
  obtain ⟨ms, allowed, same⟩ := H.moves
  obtain ⟨ns, allowed', same'⟩ := K.moves
  refine ⟨⟨ms ++ ns, Crowd.allowed_append.2 ⟨allowed, same ▸ allowed'⟩, ?_⟩, K.ordered⟩
  rw [Crowd.run_append, ← same, same']

/-- The crowd stays sound whatever moves are made. -/
theorem plays_of_moves (ms : List Crowd.Move) (ordered : w.IsOrdered) (allowed : w.crowd.Allowed ms)
    (apart : ∀ k a, w'.front? = some (k, a) → w'.back? k = none ∧ a.isControlling = false)
    (same : w'.crowd = w.crowd.run ms) : w.Plays w' :=
  ⟨⟨ms, allowed, same⟩, apart, same ▸ ordered.sound.run allowed⟩

/-- Nothing but the order has changed. -/
structure SameCrowd (w w' : World) : Prop where
  scene : w'.scene = w.scene
  front : w'.front? = w.front?
  back : w'.back? = w.back?
  handles : w'.handles = w.handles
  fresh : w'.fresh = w.fresh

theorem SameCrowd.crowd (H : w.SameCrowd w') : w'.crowd = w.crowd := by
  simp only [World.crowd, H.scene, H.front, H.back, H.handles, H.fresh]

theorem SameCrowd.trans (H : w.SameCrowd w') (K : w'.SameCrowd w'') : w.SameCrowd w'' :=
  ⟨K.scene.trans H.scene, K.front.trans H.front, K.back.trans H.back, K.handles.trans H.handles,
    K.fresh.trans H.fresh⟩

theorem SameCrowd.plays (H : w.SameCrowd w') (ordered : w.IsOrdered) : w.Plays w' := by
  refine plays_of_moves [] ordered trivial ?_ H.crowd
  rw [H.front, H.back]
  exact ordered.apart

theorem sameCrowd_wake : w.SameCrowd (w.wake k) := by
  unfold wake
  split <;> exact ⟨rfl, rfl, rfl, rfl, rfl⟩

theorem sameCrowd_foldl_wake {β : Type} {f : β → Nat} {bs : List β} :
    w.SameCrowd (bs.foldl (fun w b => w.wake (f b)) w) := by
  induction bs generalizing w with
  | nil => exact ⟨rfl, rfl, rfl, rfl, rfl⟩
  | cons b bs ih => exact sameCrowd_wake.trans ih

theorem sameCrowd_rouse : w.SameCrowd w.rouse :=
  have woken : w.SameCrowd ((w.tasks.filter w.isCalled).foldl (fun w t => w.wake t.number) w) :=
    sameCrowd_foldl_wake
  ⟨woken.scene, woken.front, woken.back, woken.handles, woken.fresh⟩

/-! ## Tasks of a crowd -/

theorem tasks_crowd : w.crowd.tasks n =
    ((w.front?.filter fun t => t.1 = n).map (·.2)).or (w.back? n) := rfl

theorem tasks_crowd_of_front (front : w.front? = some (k, a)) :
    w.crowd.tasks n = if n = k then some a else w.back? n := by
  rw [tasks_crowd, front]
  by_cases own : n = k
  · simp [own]
  · simp [own, Ne.symm own, Option.filter]

theorem tasks_crowd_of_none (front : w.front? = none) : w.crowd.tasks n = w.back? n := by
  rw [tasks_crowd, front]
  rfl

namespace IsOrdered

variable (ordered : w.IsOrdered)
include ordered

/-- A task behind the foreground is not the foreground. -/
theorem front_ne_of_back (back : w.back? k = some a) : ∀ f, w.front? = some f → f.1 ≠ k := by
  rintro f front rfl
  rw [(ordered.apart _ _ front).1] at back
  contradiction

theorem tasks_of_back (back : w.back? k = some a) : w.crowd.tasks k = some a := by
  cases front : w.front? with
  | none => rw [tasks_crowd_of_none front, back]
  | some f =>
    rw [tasks_crowd_of_front front, back, if_neg]
    exact (ordered.front_ne_of_back back f front).symm

theorem back_fresh : w.back? w.fresh = none := by
  cases back : w.back? w.fresh with
  | none => rfl
  | some a =>
    exact absurd (ordered.sound.guards.numbered _ a (ordered.tasks_of_back back))
      (Nat.lt_irrefl _)

theorem front_ne_fresh : ∀ f, w.front? = some f → f.1 ≠ w.fresh := by
  intro f front
  refine ordered.sound.guards.ne_fresh (a := f.2) ?_
  rw [tasks_crowd_of_front front, if_pos rfl]

/-- Whoever is waited for is a controller, and no controller is in the foreground. -/
theorem front_ne_of_joins (joins : w.crowd.joins? n = some k) :
    ∀ f, w.front? = some f → f.1 ≠ k := by
  rintro f front rfl
  have task : w.crowd.tasks f.1 = some f.2 := by rw [tasks_crowd_of_front front, if_pos rfl]
  have kind := ordered.sound.isKept.joined n f.1 joins f.2 task
  rw [(ordered.apart _ _ front).2] at kind
  contradiction

theorem back_of_joins (joins : w.crowd.joins? n = some k) : w.crowd.tasks k = w.back? k := by
  cases front : w.front? with
  | none => exact tasks_crowd_of_none front
  | some f =>
    rw [tasks_crowd_of_front front, if_neg]
    exact (ordered.front_ne_of_joins joins f front).symm

end IsOrdered

theorem isAlive_eq_isSome : w.isAlive n = (w.back? n).isSome := by
  rw [Bool.eq_iff_iff, back?, Option.isSome_map, taskOf?, List.find?_isSome]
  simp [isAlive]

/-- Whether others have ended matters only for whom a task waits for. -/
theorem poll_congr {s : Scene} {alive alive' : Nat → Bool}
    (same : ∀ k, a.joins? = some k → alive k = alive' k) :
    s.poll alive n a = s.poll alive' n a := by
  cases a with
  | joining task => simp only [Scene.poll, same task rfl]
  | _ => rfl

/-- In the crowd, a task goes on as in the world. -/
theorem IsOrdered.poll_crowd (ordered : w.IsOrdered) (task : w.crowd.tasks n = some a) :
    w.scene.poll w.crowd.isAlive n a = w.scene.poll w.isAlive n a := by
  refine poll_congr fun k joins => ?_
  have joins : w.crowd.joins? n = some k := by rw [Crowd.joins?, task]; exact joins
  rw [isAlive_eq_isSome, Crowd.isAlive, ordered.back_of_joins joins]

/-! ## What changes tasks -/

theorem back?_modifyTask {f : Task → Task} (hf : ∀ u, u.number = k → (f u).number = k) :
    (w.modifyTask k f).back? n =
      if k = n then (w.taskOf? n).map fun t => (f t).activity else w.back? n := by
  rw [back?, taskOf?_modifyTask hf]
  split
  · rw [Option.map_map]
    rfl
  · rfl

theorem back?_addTask :
    (w.addTask a).back? n = (w.back? n).or (if n = w.fresh then some a else none) := by
  simp only [back?, taskOf?, addTask, List.find?_append, Option.map_or, List.find?_singleton,
    eq_comm (a := n)]
  by_cases own : w.fresh = n <;> simp [own]

theorem back?_filter : ({ w with tasks := w.tasks.filter fun u => u.number ≠ k } : World).back? n =
    if n = k then none else w.back? n := by
  simp only [back?, taskOf?, List.find?_filter]
  split
  · rename_i own
    simp [own]
  · rename_i other
    congr 1
    congr 1
    funext u
    by_cases own : u.number = n
    · simp [own, other]
    · simp [own]

theorem back?_drop : (w.drop k).back? n =
    if k = n then (w.back? n).map Activity.givenUp else w.back? n := by
  rw [drop, sameCrowd_wake.back, back?_modifyTask (by exact fun _ own => own), back?,
    Option.map_map]
  congr 2
  funext t
  simp only [Function.comp_apply]
  cases t.activity with
  | controlling c stopping phase => cases phase <;> rfl
  | _ => rfl

theorem named?_without {α : Type} {name other : String} {entries : List (String × α)} :
    named? other (without name entries) = if other = name then none else named? other entries := by
  simp only [named?, without, List.find?_filter]
  split
  · rename_i own
    subst own
    simp
  · rename_i different
    congr 2
    funext e
    by_cases own : e.1 = other
    · simp [own, different]
    · simp [own]

theorem named?_append {α : Type} {name other : String} {entries : List (String × α)} {x : α} :
    named? other (without name entries ++ [(name, x)]) =
      if other = name then some x else named? other entries := by
  have rest : named? other (without name entries) = _ := named?_without
  simp only [named?, List.find?_append, Option.map_or] at rest ⊢
  rw [rest]
  by_cases own : other = name
  · simp [own]
  · simp [own, Ne.symm own]

/-! ## Changes as moves -/

theorem crowd_addTask (free : w.crowd.tasks w.fresh = none) :
    (w.addTask a).crowd = w.crowd.addTask a := by
  refine Crowd.ext rfl (funext fun n => ?_) rfl rfl
  rw [Crowd.tasks_addTask, tasks_crowd, back?_addTask, ← Option.or_assoc]
  change (w.crowd.tasks n).or _ = if n = w.fresh then some a else w.crowd.tasks n
  split
  · rename_i own
    rw [own, free]
    rfl
  · exact Option.or_none

theorem crowd_launch {l : Launch} (free : w.crowd.tasks w.fresh = none) :
    (w.launch l).crowd = w.crowd.launch l := by
  refine (crowd_addTask ?_).trans (congrArg (Crowd.addTask · _) ?_)
  · exact free
  · refine Crowd.ext rfl rfl (funext fun name => ?_) rfl
    rw [Crowd.handles_setHandle]
    exact named?_append

/-- A task that is not the foreground ends. -/
theorem crowd_filter (back : ∀ f, w.front? = some f → f.1 ≠ k) :
    ({ w with tasks := w.tasks.filter fun u => u.number ≠ k } : World).crowd =
      w.crowd.setTask k none := by
  refine Crowd.ext rfl (funext fun n => ?_) rfl rfl
  rw [Crowd.tasks_setTask, tasks_crowd, tasks_crowd, back?_filter]
  split
  · rename_i own
    subst own
    have other : (w.front?.filter fun t => t.1 = n) = none :=
      Option.filter_eq_none_iff.2 fun f hf => by simpa using back f hf
    change ((w.front?.filter _).map _).or none = none
    rw [other]
    rfl
  · rfl

/-- A task that is not the foreground changes. -/
theorem crowd_modifyTask {f : Task → Task} {g : Activity → Activity}
    (back : ∀ f, w.front? = some f → f.1 ≠ k) (hf : ∀ u, u.number = k → (f u).number = k)
    (hg : ∀ u, (f u).activity = g u.activity) :
    (w.modifyTask k f).crowd = w.crowd.setTask k ((w.crowd.tasks k).map g) := by
  have other : (w.front?.filter fun t => t.1 = k) = none :=
    Option.filter_eq_none_iff.2 fun f hf => by simpa using back f hf
  have own : w.crowd.tasks k = w.back? k := by
    rw [tasks_crowd, other]
    rfl
  refine Crowd.ext rfl (funext fun n => ?_) rfl rfl
  rw [Crowd.tasks_setTask, own, tasks_crowd, tasks_crowd, back?_modifyTask hf]
  by_cases here : n = k
  · subst here
    change ((w.front?.filter _).map _).or _ = _
    rw [if_pos rfl, if_pos rfl, other, back?, Option.map_map]
    exact congrArg (Option.map · _) (funext hg)
  · rw [if_neg here, if_neg (Ne.symm here)]
    rfl

/-- A task that is not the foreground does something else now. -/
theorem crowd_replaced {f : Task → Task} (back : ∀ f, w.front? = some f → f.1 ≠ k)
    (task : w.crowd.tasks k = some a) (hf : ∀ u, u.number = k → (f u).number = k)
    (hg : ∀ u, (f u).activity = b) : (w.modifyTask k f).crowd = w.crowd.setTask k (some b) := by
  refine (crowd_modifyTask (g := fun _ => b) back hf hg).trans ?_
  rw [task]
  rfl

theorem crowd_drop (back : ∀ f, w.front? = some f → f.1 ≠ k) :
    (w.drop k).crowd = w.crowd.drop k := by
  have front : (w.drop k).front? = w.front? := sameCrowd_wake.front
  have other : (w.front?.filter fun t => t.1 = k) = none :=
    Option.filter_eq_none_iff.2 fun f hf => by simpa using back f hf
  have own : w.crowd.tasks k = w.back? k := by
    rw [tasks_crowd, other]
    rfl
  refine Crowd.ext sameCrowd_wake.scene (funext fun n => ?_) (funext fun name => ?_)
    sameCrowd_wake.fresh
  · rw [Crowd.drop, Crowd.tasks_setTask, own, tasks_crowd, tasks_crowd, back?_drop, front]
    by_cases here : n = k
    · subst here
      rw [if_pos rfl, if_pos rfl, other]
      rfl
    · rw [if_neg here, if_neg (Ne.symm here)]
  · exact congrArg (named? name) sameCrowd_wake.handles

/-- The foreground goes on. -/
theorem crowd_front {u : Task} (front : w.front? = some (k, a)) (number : u.number = k) :
    ({ w with foreground := some u } : World).crowd = w.crowd.setTask k (some u.activity) := by
  subst number
  refine Crowd.ext rfl (funext fun n => ?_) rfl rfl
  rw [Crowd.tasks_setTask, tasks_crowd_of_front (k := u.number) (a := u.activity) rfl,
    tasks_crowd_of_front front]
  split <;> rfl

/-- The foreground ends. -/
theorem crowd_front_ended (front : w.front? = some (k, a)) (back : w.back? k = none) :
    ({ w with foreground := none } : World).crowd = w.crowd.setTask k none := by
  refine Crowd.ext rfl (funext fun n => ?_) rfl rfl
  rw [Crowd.tasks_setTask, tasks_crowd_of_none rfl, tasks_crowd_of_front front]
  split
  · rename_i own
    rw [own]
    exact back
  · rfl

/-- A timer may take a number. -/
theorem exists_arm {d : Nat} : ∃ timer, w.arm t d = (w, { t with timer }) ∨
    w.arm t d = ({ w with fresh := w.fresh + 1 }, { t with timer }) := by
  unfold arm
  split
  · exact ⟨t.timer, .inl rfl⟩
  · exact ⟨_, .inr rfl⟩

/-! ## Behind the foreground -/

/-- The foreground is what it was, and no task behind it takes its number. -/
structure KeepsFront (w w' : World) : Prop where
  front : w'.front? = w.front?
  back : ∀ f, w.front? = some f → w.back? f.1 = none → w'.back? f.1 = none

namespace KeepsFront

theorem trans (H : w.KeepsFront w') (K : w'.KeepsFront w'') : w.KeepsFront w'' where
  front := K.front.trans H.front
  back f front none := K.back f (H.front.trans front) (H.back f front none)

theorem rouse (H : w.KeepsFront w') : w.KeepsFront w'.rouse where
  front := sameCrowd_rouse.front.trans H.front
  back f front none := by
    rw [sameCrowd_rouse.back]
    exact H.back f front none

section

variable (foreground : w'.foreground = w.foreground)
include foreground

theorem front_eq : w'.front? = w.front? := by
  rw [front?, foreground]
  rfl

theorem of_filter (tasks : w'.tasks = w.tasks.filter fun u => u.number ≠ k) :
    w.KeepsFront w' where
  front := front_eq foreground
  back f _ none := by
    rw [back?, taskOf?, tasks]
    refine (back?_filter (w := w) (k := k)).trans ?_
    split
    · rfl
    · exact none

theorem of_modifyTask {f : Task → Task} (back : ∀ f, w.front? = some f → f.1 ≠ k)
    (hf : ∀ u, u.number = k → (f u).number = k) (tasks : w'.tasks = (w.modifyTask k f).tasks) :
    w.KeepsFront w' where
  front := front_eq foreground
  back f' front none := by
    rw [back?, taskOf?, tasks]
    refine (back?_modifyTask (w := w) hf).trans ?_
    rw [if_neg (back f' front).symm]
    exact none

theorem of_addTask (known : ∀ f, w.front? = some f → f.1 ≠ w.fresh)
    (tasks : w'.tasks = (w.addTask a).tasks) : w.KeepsFront w' where
  front := front_eq foreground
  back f front none := by
    rw [back?, taskOf?, tasks]
    refine (back?_addTask (w := w)).trans ?_
    rw [none, if_neg (known f front)]
    rfl

end

theorem drop (back : ∀ f, w.front? = some f → f.1 ≠ k) : w.KeepsFront (w.drop k) where
  front := sameCrowd_wake.front
  back f front none := by
    rw [back?_drop, if_neg (back f front).symm]
    exact none

end KeepsFront

/-- Moves are made, and the foreground does not change. -/
theorem plays_behind {ms : List Crowd.Move} (ordered : w.IsOrdered) (allowed : w.crowd.Allowed ms)
    (keeps : w.KeepsFront w') (same : w'.crowd = w.crowd.run ms) : w.Plays w' := by
  refine plays_of_moves ms ordered allowed (fun k a front => ?_) same
  rw [keeps.front] at front
  obtain ⟨none, kind⟩ := ordered.apart k a front
  exact ⟨keeps.back (k, a) front none, kind⟩

/-! ## What happens -/

/-- A task goes on in the crowd as in the world. -/
theorem IsOrdered.turn_go {scene : Scene} {poll : Poll} (ordered : w.IsOrdered)
    (task : w.crowd.tasks k = some a) (hp : w.scene.poll w.isAlive k a = (scene, poll)) :
    w.crowd.turn (.go k) = { w.crowd with scene }.advance k poll :=
  Crowd.turn_go task ((ordered.poll_crowd task).trans hp)

theorem plays_runForeground (ordered : w.IsOrdered) (task : w.foreground = some t) :
    w.Plays (w.runForeground t) := by
  have front : w.front? = some (t.number, t.activity) := by rw [front?, task]; rfl
  obtain ⟨back, kind⟩ := ordered.apart _ _ front
  have own : w.crowd.tasks t.number = some t.activity := by
    rw [tasks_crowd_of_front front, if_pos rfl]
  have proceeds := w.scene.proceeds_poll w.isAlive t.number t.activity
  cases hp : w.scene.poll w.isAlive t.number t.activity with
  | mk scene poll =>
  rw [hp] at proceeds
  have turn := ordered.turn_go own hp
  have go : w.crowd.Allowed [.go t.number] := ⟨trivial, trivial⟩
  have front' : ({ w with scene } : World).front? = some (t.number, t.activity) := front
  have ended := crowd_front_ended front' back
  have stays : ∀ {b}, poll.rest? = some b → ∀ k a, some (t.number, b) = some (k, a) →
      w.back? k = none ∧ a.isControlling = false := by
    rintro b rest _ _ ⟨⟩
    exact ⟨back, proceeds.isControlling kind rest⟩
  cases poll with
  | ended answer =>
    simp only [runForeground, hp]
    refine plays_of_moves _ ordered go ?_ (sameCrowd_rouse.crowd.trans (ended.trans turn.symm))
    rw [sameCrowd_rouse.front]
    exact fun _ _ h => absurd h.symm (Option.some_ne_none _)
  | launching l =>
    simp only [runForeground, hp]
    have apart : w.fresh ≠ t.number := (ordered.sound.guards.ne_fresh own).symm
    have free : ({ w with scene, foreground := none } : World).crowd.tasks w.fresh = none := by
      rw [ended, Crowd.tasks_setTask, if_neg apart]
      exact ordered.sound.guards.tasks_fresh
    have launched := (crowd_launch free).trans (congrArg (Crowd.launch · l) ended)
    refine plays_of_moves _ ordered go ?_
      (sameCrowd_rouse.crowd.trans (launched.trans turn.symm))
    rw [sameCrowd_rouse.front]
    exact fun _ _ h => absurd h.symm (Option.some_ne_none _)
  | blocked deadline b =>
    simp only [runForeground, hp]
    have goesOn (timer : Option Timer) :
        ({ w with scene, foreground := some { t with activity := b, timer } } : World).crowd =
          w.crowd.turn (.go t.number) := by
      rw [turn]
      exact crowd_front (u := { t with activity := b, timer }) front' rfl
    obtain ⟨timer, same | same⟩ :=
      exists_arm (w := { w with scene }) (t := { t with activity := b }) (d := deadline) <;>
      rw [same]
    · refine plays_of_moves _ ordered go ?_ (sameCrowd_rouse.crowd.trans (goesOn timer))
      rw [sameCrowd_rouse.front, sameCrowd_rouse.back]
      exact stays rfl
    · have go : w.crowd.Allowed [.go t.number, .skip] := ⟨trivial, trivial, trivial⟩
      refine plays_of_moves _ ordered go ?_
        (sameCrowd_rouse.crowd.trans (congrArg (Crowd.turn · .skip) (goesOn timer)))
      rw [sameCrowd_rouse.front, sameCrowd_rouse.back]
      exact stays rfl
  | again b =>
    simp only [runForeground, hp]
    refine plays_of_moves _ ordered go (stays rfl) (Eq.trans ?_ turn.symm)
    exact crowd_front (u := { t with activity := b, timer := none }) front' rfl
  | dropping j b =>
    simp only [runForeground, hp]
    have joins : w.crowd.joins? t.number = some j := by
      rw [Crowd.joins?, own]
      exact proceeds.joins?
    let world : World :=
      { w with scene, foreground := some { t with activity := b, timer := none } }
    have other : t.number ≠ j := ordered.front_ne_of_joins joins _ front
    have apart : ∀ f, world.front? = some f → f.1 ≠ j := by
      rintro f ⟨⟩
      exact other
    have keeps : world.KeepsFront (world.drop j) := .drop apart
    refine plays_of_moves _ ordered go ?_ ((crowd_drop apart).trans (Eq.trans ?_ turn.symm))
    · rw [keeps.front]
      intro k a h
      obtain ⟨none, kind⟩ := stays rfl k a h
      exact ⟨keeps.back (k, a) h none, kind⟩
    · exact congrArg (Crowd.drop · j) (crowd_front front' rfl)

/-- A task that is not the foreground goes on. -/
theorem plays_runTask (ordered : w.IsOrdered) (task : w.taskOf? k = some t) :
    w.Plays (w.runTask t) := by
  obtain rfl := number_of_taskOf? task
  have back : w.back? t.number = some t.activity := by rw [back?, task]; rfl
  have own := ordered.tasks_of_back back
  have other := ordered.front_ne_of_back back
  have proceeds := w.scene.proceeds_poll w.isAlive t.number t.activity
  cases hp : w.scene.poll w.isAlive t.number t.activity with
  | mk scene poll =>
  rw [hp] at proceeds
  have turn := ordered.turn_go own hp
  have go : w.crowd.Allowed [.go t.number] := ⟨trivial, trivial⟩
  cases poll with
  | ended answer =>
    simp only [runTask, hp]
    refine plays_behind ordered go (KeepsFront.rouse ?_)
      (sameCrowd_rouse.crowd.trans (Eq.trans ?_ turn.symm))
    · exact .of_filter rfl rfl
    · exact crowd_filter (w := { w with scene }) other
  | launching l =>
    simp only [runTask, hp]
    have known : t.number ≠ w.fresh := ordered.sound.guards.ne_fresh own
    have free : ({ w with scene } : World).crowd.tasks w.fresh = none :=
      ordered.sound.guards.tasks_fresh
    have keeps : w.KeepsFront (({ w with scene } : World).launch l) :=
      .of_addTask rfl ordered.front_ne_fresh rfl
    refine plays_behind ordered go (KeepsFront.rouse (keeps.trans ?_))
      (sameCrowd_rouse.crowd.trans (Eq.trans ?_ turn.symm))
    · exact .of_filter rfl rfl
    · refine (crowd_filter (w := ({ w with scene } : World).launch l) other).trans ?_
      rw [crowd_launch free, Crowd.setTask_launch (by exact known)]
      rfl
  | blocked deadline b =>
    simp only [runTask, hp]
    let waiting (timer : Option Timer) (_ : Task) : Task := { t with activity := b, timer }
    obtain ⟨timer, same | same⟩ :=
      exists_arm (w := { w with scene }) (t := { t with activity := b }) (d := deadline) <;>
      rw [same]
    · refine plays_behind ordered go (KeepsFront.rouse ?_)
        (sameCrowd_rouse.crowd.trans (Eq.trans ?_ turn.symm))
      · exact .of_modifyTask (f := waiting timer) rfl other (fun _ _ => rfl) rfl
      · exact crowd_replaced (w := { w with scene }) (f := waiting timer) other own
          (fun _ _ => rfl) fun _ => rfl
    · have go : w.crowd.Allowed [.go t.number, .skip] := ⟨trivial, trivial, trivial⟩
      refine plays_behind ordered go (KeepsFront.rouse ?_)
        (sameCrowd_rouse.crowd.trans (Eq.trans ?_ (congrArg (Crowd.turn · .skip) turn).symm))
      · exact .of_modifyTask (f := waiting timer) rfl other (fun _ _ => rfl) rfl
      · exact crowd_replaced (w := { w with scene, fresh := w.fresh + 1 }) (f := waiting timer)
          other own (fun _ _ => rfl) fun _ => rfl
  | again b =>
    simp only [runTask, hp]
    let goingOn (t : Task) : Task := { t with activity := b, timer := none }
    refine plays_behind ordered go ?_ (Eq.trans ?_ turn.symm)
    · exact .of_modifyTask (f := goingOn) rfl other (fun _ own => own) rfl
    · exact crowd_replaced (w := { w with scene }) (f := goingOn) other own (fun _ own => own)
        fun _ => rfl
  | dropping j b =>
    simp only [runTask, hp]
    have joins : w.crowd.joins? t.number = some j := by
      rw [Crowd.joins?, own]
      exact proceeds.joins?
    have apart := ordered.front_ne_of_joins joins
    let goingOn (t : Task) : Task := { t with activity := b, timer := none }
    have now : (({ w with scene } : World).modifyTask t.number goingOn).crowd = _ :=
      crowd_replaced other own (fun _ own => own) fun _ => rfl
    have keeps : w.KeepsFront (({ w with scene } : World).modifyTask t.number goingOn) :=
      .of_modifyTask (f := goingOn) rfl other (fun _ own => own) rfl
    refine plays_behind ordered go (keeps.trans (.drop apart)) ((crowd_drop ?_).trans ?_)
    · exact apart
    · exact (congrArg (Crowd.drop · j) now).trans turn.symm

/-- Time passes for all. -/
theorem sameCrowd_passTo {d : Nat} :
    ({ w with scene := { w.scene with elapsed := max w.scene.elapsed d } } : World).SameCrowd
      (w.passTo d) := by
  let isDue (timer : Timer) : Bool := timer.deadline ≤ d
  let due := (w.timers.filter fun t => isDue t.1).mergeSort fun a b => a.1.isBefore b.1
  let later := { w with scene := { w.scene with elapsed := max w.scene.elapsed d } }
  let woken := due.foldl (fun w t => w.wake t.2) later
  have same : later.SameCrowd woken := sameCrowd_foldl_wake
  have passed : later.SameCrowd { woken with tasks := woken.tasks.map (Task.passedTo d) } := by
    refine ⟨same.scene, same.front, ?_, same.handles, same.fresh⟩
    rw [← same.back]
    funext n
    simp only [back?, taskOf?, List.find?_map, Function.comp_def, Task.number_passedTo,
      Option.map_map]
    congr 1
    funext t
    simp only [Task.passedTo]
    split <;> rfl
  simp only [passTo]
  split
  · rename_i t task
    split
    · refine ⟨passed.scene, ?_, passed.back, passed.handles, passed.fresh⟩
      rw [← passed.front]
      exact (congrArg (Option.map fun t => (t.number, t.activity)) task).symm
    · exact passed
  · exact passed

/-- **Whatever happens in a world is made of moves in its crowd.** -/
theorem plays_next (ordered : w.IsOrdered) (next : w.next? = some w') : w.Plays w' := by
  cases change_of_next? next with
  | foreground focus task => exact plays_runForeground ordered task
  | task focus task => exact plays_runTask ordered task
  | idle | gone | pick | wake => exact SameCrowd.plays ⟨rfl, rfl, rfl, rfl, rfl⟩ ordered
  | @pass deadline =>
    have same : ({ w with scene := { w.scene with elapsed := max w.scene.elapsed deadline } } :
      World).SameCrowd (w.passTo deadline) := sameCrowd_passTo
    refine plays_of_moves [.pass deadline] ordered ⟨trivial, trivial⟩ ?_ same.crowd
    rw [same.front, same.back]
    exact ordered.apart

theorem plays_settle (ordered : w.IsOrdered) : w.Plays w.settle := by
  have within : ∀ fuel {w : World}, w.IsOrdered → w.Plays (w.settleWithin fuel) := by
    intro fuel
    induction fuel with
    | zero => exact fun ordered => .refl ordered
    | succ fuel ih =>
      intro w ordered
      simp only [settleWithin]
      split
      · rename_i next
        have first := plays_next ordered next
        exact first.trans (ih first.ordered)
      · exact .refl ordered
  exact within _ ordered

/-! ## Steps -/

theorem rearranges_of_replicas {s t : Scene} (elapsed : t.elapsed = s.elapsed)
    (same : t.replicas = s.replicas) : s.Rearranges t :=
  ⟨elapsed, Nat.le_of_eq (congrArg List.length same).symm, fun _ => Scene.isTaken_of_replicas same⟩

/-- A process is set up whose guards are free. -/
theorem rearranges_append {s : Scene} {r : Replica} (free : r.guards = ⟨{}, {}⟩) :
    s.Rearranges { s with replicas := s.replicas ++ [r] } := by
  refine ⟨rfl, by simp, fun key => ?_⟩
  obtain ⟨i, role⟩ := key
  simp only [Scene.isTaken]
  rcases Nat.lt_trichotomy i s.replicas.length with old | rfl | beyond
  · rw [List.getElem?_append_left old]
  · rw [List.getElem?_concat_length, List.getElem?_eq_none (Nat.le_refl _)]
    cases role <;> simp [free, PerRole.get]
  · rw [List.getElem?_eq_none (by simp; omega), List.getElem?_eq_none (Nat.le_of_lt beyond)]

theorem plays_arrange {scene : Scene} (ordered : w.IsOrdered)
    (rearranges : w.scene.Rearranges scene) : w.Plays { w with scene } :=
  plays_of_moves [.arrange scene] ordered ⟨rearranges, trivial⟩ ordered.apart rfl

theorem plays_withStore {store : MemoryStore} (ordered : w.IsOrdered) :
    w.Plays (w.withStore store) := plays_arrange ordered (rearranges_of_replicas rfl rfl)

theorem crowd_await (front : w.front? = none) : (w.await a).crowd = w.crowd.addTask a := by
  refine Crowd.ext rfl (funext fun n => ?_) rfl rfl
  rw [Crowd.tasks_addTask, tasks_crowd_of_none front]
  exact tasks_crowd_of_front rfl

/-- Something is begun, and waited for. -/
theorem plays_await (ordered : w.IsOrdered) (idle : w.IsIdle)
    (allowed : w.crowd.Allows (.begin a)) : w.Plays (w.await a) := by
  have front : w.front? = none := by rw [front?, idle.foreground]; rfl
  refine plays_of_moves [.begin a] ordered ⟨allowed, trivial⟩ ?_ (crowd_await front)
  rintro k a' ⟨⟩
  refine ⟨ordered.back_fresh, ?_⟩
  have kind := allowed.1
  cases a with
  | controlling => contradiction
  | _ => rfl

theorem plays_answered (ordered : w.IsOrdered) : w.Plays w.answered.1 :=
  SameCrowd.plays ⟨rfl, rfl, rfl, rfl, rfl⟩ ordered

/-- What has been begun comes to its end. -/
theorem plays_awaited (ordered : w.IsOrdered) (idle : w.IsIdle)
    (allowed : w.crowd.Allows (.begin a)) : w.Plays (w.await a).settle.answered.1 := by
  have begun := plays_await ordered idle allowed
  have settled := plays_settle begun.ordered
  exact begun.trans (settled.trans (plays_answered settled.ordered))

section

variable {i : Nat} {r : Replica} {id : String} {x : Operation Answer}
  {queue : List (Nat × Operation Answer)} {ending : Ending}

theorem lt_of_replica? (here : w.replica? id = some (i, r)) : i < w.scene.replicas.length := by
  simp only [replica?, Option.bind_eq_bind, Option.bind_eq_some_iff, Option.pure_def,
    Option.some.injEq, Prod.mk.injEq] at here
  obtain ⟨number, -, replica, found, rfl, rfl⟩ := here
  exact (List.getElem?_eq_some_iff.1 found).1

theorem plays_operate (ordered : w.IsOrdered) (idle : w.IsIdle)
    (order : x.IsInOrder (i < w.scene.replicas.length) none)
    (later : ∀ next ∈ queue, next.2.IsInOrder (next.1 < w.scene.replicas.length) none) :
    w.Plays (w.operate i x queue ending).answered.1 :=
  plays_awaited ordered idle ⟨rfl, rfl, Activity.isInOrder_operating order later⟩

/-- A cycle of a replica is in order. -/
theorem isInOrder_cycle (here : w.replica? id = some (i, r)) {role : Role} :
    (silent (r.participant.cycle role)).IsInOrder (i < w.scene.replicas.length) none :=
  isInOrder_silent (Participant.isInOrder_cycle.mono fun _ => lt_of_replica? here)

theorem plays_attempt {α : Type} {y : Participant → Attempt α} {f : α → Answer}
    (ordered : w.IsOrdered) (idle : w.IsIdle) (asks : ∀ p, (y p).run.Asks Query.IsOfWork) :
    w.Plays (w.attempt id y f).1 := by
  unfold attempt
  split
  · exact .refl ordered
  · exact plays_operate ordered idle ((asks _).isInOrder_bind fun _ => rfl) (List.forall_mem_nil _)

theorem plays_aside {name : String} (ordered : w.IsOrdered) (allowed : w.crowd.Allows (.begin a)) :
    w.Plays (w.aside name a).1 := by
  have added : w.Plays (({ w with
      background := without name w.background ++ [(name, w.fresh)] } : World).addTask a) := by
    refine plays_of_moves [.begin a] ordered ⟨allowed, trivial⟩ ?_
      (crowd_addTask ordered.sound.guards.tasks_fresh)
    intro k b front
    have front : w.front? = some (k, b) := front
    have task : w.crowd.tasks k = some b := by rw [tasks_crowd_of_front front, if_pos rfl]
    refine ⟨back?_addTask.trans ?_, (ordered.apart k b front).2⟩
    have other : k ≠ w.fresh := ordered.sound.guards.ne_fresh task
    change (w.back? k).or (if k = w.fresh then _ else _) = none
    rw [(ordered.apart k b front).1, if_neg other]
    rfl
  exact added.trans (plays_settle added.ordered)

end

theorem plays_stepOutside {s : Step} (ordered : w.IsOrdered) (idle : w.IsIdle) :
    w.Plays (w.stepOutside s).1 := by
  cases s with
  | call c => exact plays_operate ordered idle (fun _ => rfl) (List.forall_mem_nil _)
  | sleep millis => exact plays_awaited ordered idle ⟨rfl, rfl, trivial⟩
  | save ns name as =>
    simp only [stepOutside]
    split
    · exact SameCrowd.plays ⟨rfl, rfl, rfl, rfl, rfl⟩ ordered
    · exact .refl ordered
  | advance span =>
    simp only [stepOutside]
    split
    · exact plays_arrange ordered (rearranges_of_replicas rfl rfl)
    · exact .refl ordered
  | now =>
    simp only [stepOutside]
    split <;> exact .refl ordered
  | replica id pod ns settings topology =>
    have setUp : w.Plays { w with scene := (w.setUp id pod ns settings topology).scene } :=
      plays_arrange ordered (rearranges_append rfl)
    exact setUp.trans (SameCrowd.plays ⟨rfl, rfl, rfl, rfl, rfl⟩ setUp.ordered)
  | seed | addPod | setReplicas | putLease | removeLease | putWorkload | removeWorkload | switch =>
    exact plays_withStore ordered
  | fault | clearFaults => exact plays_arrange ordered (rearranges_of_replicas rfl rfl)
  | _ => exact .refl ordered

theorem plays_stepOperation {s : Step} (ordered : w.IsOrdered) (idle : w.IsIdle) :
    w.Plays (w.stepOperation s).1 := by
  have pool : ∀ {α : Type} {id : String} {x : Participant → Attempt α} {f : α → Answer},
      (∀ p, (x p).run.Asks Query.IsOfPool) → w.Plays (w.attempt id x f).1 := fun asks =>
    plays_attempt ordered idle fun p => (asks p).mono fun _ => Query.IsOfPool.isOfWork
  cases s with
  | tick id =>
    simp only [stepOperation]
    split
    · rename_i here
      refine plays_operate ordered idle (isInOrder_cycle here) ?_
      simpa using isInOrder_cycle here
    · exact .refl ordered
  | cycle id role =>
    simp only [stepOperation]
    split
    · rename_i here
      exact plays_operate ordered idle (isInOrder_cycle here) (List.forall_mem_nil _)
    · exact .refl ordered
  | release id role =>
    simp only [stepOperation]
    split
    · refine plays_operate ordered idle (isInOrder_silent Participant.isInOrder_release) ?_
      exact List.forall_mem_nil _
    · exact .refl ordered
  | stop id =>
    simp only [stepOperation]
    split
    · refine plays_operate ordered idle (isInOrder_silent Participant.isInOrder_release) ?_
      simpa using isInOrder_silent Participant.isInOrder_release
    · exact .refl ordered
  | renew id ns holder source =>
    simp only [stepOperation]
    split
    · exact pool fun _ => Pool.asks_renew
    · exact .refl ordered
  | reconcile id =>
    simp only [stepOperation]
    exact pool fun _ => Participant.asks_reconcile
  | acquire id =>
    simp only [stepOperation]
    exact plays_attempt ordered idle fun _ => Participant.asks_acquire
  | ensureMember id name =>
    simp only [stepOperation]
    exact pool fun _ => Pool.asks_ensure
  | renewByName id name holder =>
    simp only [stepOperation]
    exact pool fun _ => Pool.asks_renewByName
  | acquireLeader id holder name =>
    simp only [stepOperation]
    exact pool fun _ => Pool.asks_acquireLeader
  | acquireMember id holder q known =>
    simp only [stepOperation]
    refine pool fun p => ?_
    cases known with
    | none => exact Pool.asks_acquireMember
    | some known => exact Pool.asks_acquireMemberHinted
  | releaseLease id holder name =>
    simp only [stepOperation]
    exact pool fun _ => Pool.asks_release
  | desired id =>
    simp only [stepOperation]
    exact pool fun _ => Topology.asks_desiredReplicas?
  | owners id =>
    simp only [stepOperation]
    exact pool fun _ => Topology.asks_owners
  | _ => exact .refl ordered

/-- A controller is started at once. -/
theorem plays_launch {l : Launch} (ordered : w.IsOrdered) (idle : w.IsIdle) :
    w.Plays (w.launch l) := by
  refine plays_of_moves [.launch l] ordered ⟨trivial, trivial⟩ ?_
    (crowd_launch ordered.sound.guards.tasks_fresh)
  intro k a front
  have front : w.foreground.map (fun t => (t.number, t.activity)) = some (k, a) := front
  rw [idle.foreground] at front
  contradiction

theorem number_stopped : t.stopped.number = t.number := by
  unfold Task.stopped
  split <;> rfl

theorem activity_stopped : t.stopped.activity = t.activity.stopped := by
  unfold Task.stopped
  cases h : t.activity <;> simp [h, Activity.stopped]

/-- A controller is told to stop, and is waited for. -/
theorem plays_shutdown {name : String} {h : Handle} (grace : Nat) (ordered : w.IsOrdered)
    (idle : w.IsIdle) (handle : named? name w.handles = some h) :
    w.Plays (({ w with handles := without name w.handles }.modifyTask h.task Task.stopped).await
      (.joining h.task h.controller grace (w.scene.elapsed + grace) w.scene.elapsed)) := by
  have front : w.front? = none := by rw [front?, idle.foreground]; rfl
  have number : ∀ u : Task, u.number = h.task → u.stopped.number = h.task := by
    intro u own
    rw [number_stopped, own]
  have handles : ({ w with handles := without name w.handles } : World).crowd =
      w.crowd.setHandle name none := by
    refine Crowd.ext rfl rfl (funext fun other => ?_) rfl
    change named? other (without name w.handles) = (w.crowd.setHandle name none).handles other
    rw [named?_without, Crowd.handles_setHandle]
    rfl
  have stopped : ({ w with handles := without name w.handles }.modifyTask h.task
      Task.stopped).crowd = (w.crowd.setHandle name none).setTask h.task
        ((w.crowd.tasks h.task).map Activity.stopped) := by
    refine (crowd_modifyTask (g := Activity.stopped) ?_ number fun _ => activity_stopped).trans ?_
    · intro f h
      have h : w.front? = some f := h
      rw [front] at h
      contradiction
    · rw [handles]
      rfl
  refine plays_of_moves [.shutDown name grace] ordered ⟨trivial, trivial⟩ ?_ ?_
  · rintro k a ⟨⟩
    refine ⟨?_, rfl⟩
    change (World.modifyTask _ h.task Task.stopped).back? w.fresh = none
    have free : w.taskOf? w.fresh = none := Option.map_eq_none_iff.1 ordered.back_fresh
    rw [back?_modifyTask number]
    split
    · exact congrArg (Option.map _) free
    · exact ordered.back_fresh
  · refine (crowd_await (by exact front)).trans ?_
    have here : w.crowd.handles name = some h := handle
    have turn : w.crowd.turn (.shutDown name grace) =
        (w.crowd.setHandle name none).shutDown h grace := by
      simp only [Crowd.turn, here]
    change _ = w.crowd.turn (.shutDown name grace)
    rw [turn, stopped]
    rfl

theorem allows_waitFor {i : Nat} {r : Replica} {limit : Span}
    (waits : w.waitFor i r limit = .inr a) : w.crowd.Allows (.begin a) := by
  unfold waitFor at waits
  split at waits
  · contradiction
  · obtain rfl := Sum.inr.inj waits
    exact ⟨rfl, rfl, trivial⟩

theorem plays_stepMembership {s : Step} (ordered : w.IsOrdered) (idle : w.IsIdle) :
    w.Plays (w.stepMembership s).1 := by
  cases s with
  | view | report =>
    simp only [stepMembership]
    split <;> exact .refl ordered
  | collect task =>
    simp only [stepMembership]
    split
    · exact .refl ordered
    · split
      · exact .refl ordered
      · exact SameCrowd.plays ⟨rfl, rfl, rfl, rfl, rfl⟩ ordered
  | deliver id kind lease =>
    simp only [stepMembership]
    split
    · rename_i i r here
      have delivered : w.Plays { w with
          scene := w.scene.modifyReplica i fun r =>
            { r with coordinator := r.coordinator.deliver kind lease } } := by
        refine plays_arrange ordered ⟨rfl, Nat.le_of_eq Scene.length_modifyReplica.symm, ?_⟩
        exact fun _ => Scene.isTaken_modifyReplica fun _ => rfl
      have roused := delivered.trans (sameCrowd_rouse.plays delivered.ordered)
      exact roused.trans (plays_settle roused.ordered)
    · exact .refl ordered
  | await id limit =>
    simp only [stepMembership]
    split
    · split
      · exact .refl ordered
      · rename_i waits
        exact plays_awaited ordered idle (allows_waitFor waits)
    · exact .refl ordered
  | awaitAside id limit task =>
    simp only [stepMembership]
    split
    · split
      · exact plays_of_moves [.skip] ordered ⟨trivial, trivial⟩ ordered.apart rfl
      · rename_i waits
        exact plays_aside ordered (allows_waitFor waits)
    · exact .refl ordered
  | cycleAside id role task =>
    simp only [stepMembership]
    split
    · rename_i here
      exact plays_aside ordered ⟨rfl, rfl, Activity.isInOrder_operating (isInOrder_cycle here)⟩
    · exact .refl ordered
  | spawn id role interval delay handle primed =>
    simp only [stepMembership]
    split
    · rename_i here
      split
      · exact plays_operate ordered idle (isInOrder_cycle here) (List.forall_mem_nil _)
      · refine (plays_launch ordered idle).trans (plays_settle ?_)
        exact (plays_launch ordered idle).ordered
    · exact .refl ordered
  | shutdown handle grace =>
    simp only [stepMembership]
    split
    · rename_i h found
      have stopped := plays_shutdown grace ordered idle found
      have settled := stopped.trans (plays_settle stopped.ordered)
      exact settled.trans (plays_answered settled.ordered)
    · exact .refl ordered
  | dropHandle handle =>
    refine plays_of_moves [.dropHandle handle] ordered ⟨trivial, trivial⟩ ordered.apart ?_
    refine Crowd.ext rfl rfl (funext fun name => ?_) rfl
    change named? name (without handle w.handles) = (w.crowd.setHandle handle none).handles name
    rw [named?_without, Crowd.handles_setHandle]
    rfl
  | _ => exact .refl ordered

/-- **A step of a world is made of moves in its crowd.** -/
theorem plays_step {s : Step} (ordered : w.IsOrdered) (idle : w.IsIdle) :
    w.Plays (w.step s).1 := by
  cases s <;>
    first
    | exact plays_stepOutside ordered idle
    | exact plays_stepOperation ordered idle
    | exact plays_stepMembership ordered idle

/-- **What steps do one after the other, each when the one before has come to its end, is made of
moves in a crowd** in which nobody was at the beginning. -/
theorem exists_moves_of_steps {start : World} (empty : start.crowd.IsEmpty)
    (idle : start.foreground = none)
    (steps : Relation.ReflTransGen (fun w w' => w.IsIdle ∧ ∃ s, w' = (w.step s).1) start w) :
    ∃ ms, start.crowd.Allowed ms ∧ w.crowd = start.crowd.run ms := by
  have ordered : start.IsOrdered := by
    refine ⟨fun k a front => ?_, empty.isSound⟩
    rw [front?, idle] at front
    contradiction
  have plays : start.Plays w := by
    induction steps with
    | refl => exact .refl ordered
    | tail _ step ih =>
      obtain ⟨idle, s, rfl⟩ := step
      exact ih.trans (plays_step ih.ordered idle)
  exact plays.moves

end World

end LeasePool
