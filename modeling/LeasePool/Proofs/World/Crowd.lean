import LeasePool.Proofs.World.Guards
import LeasePool.Proofs.World.Pace
import Mathlib.Logic.Function.Basic

/-!
# Crowds

Tasks over a scene that go on in any order. A world has an order in which tasks go on, and lets time
pass only when nobody can; a crowd has none. Any task may go on at any moment, whether it has been
woken or not, any time may pass, and anything may be begun, launched and stopped at any moment. What
holds of all runs of crowds holds whatever the order is.

In a crowd in which everybody came in order, no two tasks are inside a cycle of the same role of the
same replica, and a guard is taken exactly while a task is inside.

## Main definitions

* `Crowd`, `Crowd.Move`, `Crowd.turn`, `Crowd.run`: what can happen in a crowd.
* `Crowd.Allowed`: moves that begin operations in order.
* `Crowd.IsGuarded`: guards are taken exactly while somebody is inside.

## Main statements

* `Crowd.IsGuarded.turn`: so it is after each move, as long as no task is dropped in which a
  cycle would be forgotten.
-/

namespace LeasePool

namespace Activity

/-- Whether the task is not part of the life of a controller. -/
def isOrdinary : Activity → Bool
  | operating .. | sleeping _ | awaiting .. => true
  | joining .. | releasing .. | controlling .. | dropped .. => false

/-- Whether the task is the loop of a controller. -/
def isControlling : Activity → Bool
  | controlling .. => true
  | _ => false

/-- The controller that a task waits for, which has been told to stop. -/
def joins? : Activity → Option Nat
  | joining task .. => some task
  | _ => none

/-- What becomes of a controller that is told to stop. -/
def stopped : Activity → Activity
  | controlling c _ phase => controlling c true phase
  | a => a

/-- What becomes of a task that is given up. -/
def givenUp : Activity → Activity
  | controlling _ _ (.cycling _ _ run) => dropped run.replica run.inside
  | controlling c _ _ => dropped c.replica none
  | _ => dropped 0 none

variable {s : Scene} {a : Activity}

@[simp] theorem cycle?_stopped : a.stopped.cycle? = a.cycle? := by
  cases a with
  | controlling c stopping phase => cases phase <;> rfl
  | _ => rfl

@[simp] theorem joins?_stopped : a.stopped.joins? = a.joins? := by
  cases a <;> rfl

theorem isInOrder_stopped : a.stopped.IsInOrder s ↔ a.IsInOrder s := by
  cases a with
  | controlling c stopping phase => cases phase <;> exact Iff.rfl
  | _ => exact Iff.rfl

/-- A controller that is given up is still inside its cycle. -/
theorem cycle?_givenUp (loop : a.isControlling = true) : a.givenUp.cycle? = a.cycle? := by
  cases a with
  | controlling c stopping phase => cases phase <;> rfl
  | _ => contradiction

theorem isInOrder_givenUp : a.givenUp.IsInOrder s := by
  cases a with
  | controlling c stopping phase => cases phase <;> trivial
  | _ => trivial

end Activity

/-- The task that is dropped when one goes on. -/
def Poll.drops? : Poll → Option Nat
  | dropping task _ => some task
  | ended _ | launching _ | blocked .. | again _ => none

/-- The controller that is started when a task goes on. -/
def Poll.launches? : Poll → Option Launch
  | launching l => some l
  | ended _ | blocked .. | again _ | dropping .. => none

/-- How a task of each kind goes on. -/
inductive Scene.Proceeds (s : Scene) (alive : Nat → Bool) : Activity → Poll → Prop
  | ordinary {a : Activity} {p : Poll} (kind : a.isOrdinary = true)
    (after : ∀ b, p.rest? = some b → b.isOrdinary = true) (drops : p.drops? = none) :
    Proceeds s alive a p
  | waits {task grace deadline start : Nat} {c : Controller} (there : alive task = true)
    (early : s.elapsed < deadline) : Proceeds s alive (.joining task c grace deadline start)
      (.blocked deadline (.joining task c grace deadline start))
  | joined {task grace deadline start : Nat} {c : Controller} (gone : alive task = false) :
    Proceeds s alive (.joining task c grace deadline start) (.again (.releasing s.elapsed
      (.start c.replica (s.releaseOf c.replica c.role)) (s.elapsed + grace) start))
  | overdue {task grace deadline start : Nat} {c : Controller} (there : alive task = true)
    (late : deadline ≤ s.elapsed) : Proceeds s alive (.joining task c grace deadline start)
      (.dropping task (.releasing s.elapsed
        (.start c.replica (s.releaseOf c.replica c.role)) (s.elapsed + grace) start))
  | releases {next deadline start : Nat} {run : Running Unit} {p : Poll}
    (after : ∀ b, p.rest? = some b → ∃ next run, b = .releasing next run deadline start)
    (drops : p.drops? = none) (launches : p.launches? = none) :
    Proceeds s alive (.releasing next run deadline start) p
  | loops {c : Controller} {stopping : Bool} {phase : Phase} {p : Poll}
    (after : ∀ b, p.rest? = some b → ∃ phase, b = .controlling c stopping phase)
    (drops : p.drops? = none) (launches : p.launches? = none) :
    Proceeds s alive (.controlling c stopping phase) p
  | reaped {replica : Nat} {inside : Option Role} :
    Proceeds s alive (.dropped replica inside) (.ended .nothing)

namespace Scene

variable {s : Scene} {alive : Nat → Bool}

theorem proceeds_operating {deadline start number : Nat} {run : Running Answer}
    {queue : List (Nat × Operation Answer)} {ending : Ending} :
    s.Proceeds alive (.operating deadline run queue start ending)
      (s.poll alive number (.operating deadline run queue start ending)).2 := by
  simp only [poll]
  split
  · exact .ordinary rfl (Poll.of_rest rfl rfl) rfl
  · unfold pollOperating
    obtain ⟨t, progress⟩ := s.resume run
    cases progress with
    | waiting millis rest => exact .ordinary rfl (Poll.of_rest rfl rfl) rfl
    | crashed => exact .ordinary rfl (Poll.of_ended rfl) rfl
    | ended answer =>
      cases queue with
      | cons next queue => exact .ordinary rfl (Poll.of_rest rfl rfl) rfl
      | nil => cases ending <;> exact .ordinary rfl (Poll.of_ended rfl) rfl

theorem proceeds_releasing {next deadline start number : Nat} {run : Running Unit} :
    s.Proceeds alive (.releasing next run deadline start)
      (s.poll alive number (.releasing next run deadline start)).2 := by
  simp only [poll]
  split
  · unfold pollReleasing
    obtain ⟨t, progress⟩ := s.resume run
    cases progress with
    | ended => exact .releases (Poll.of_ended rfl) rfl rfl
    | crashed => exact .releases (Poll.of_ended rfl) rfl rfl
    | waiting millis rest =>
      simp only
      split
      · exact .releases (Poll.of_ended rfl) rfl rfl
      · exact .releases (Poll.of_rest rfl ⟨_, _, rfl⟩) rfl rfl
  · split
    · exact .releases (Poll.of_ended rfl) rfl rfl
    · exact .releases (Poll.of_rest rfl ⟨_, _, rfl⟩) rfl rfl

theorem proceeds_controlling {c : Controller} {stopping : Bool} {phase : Phase} :
    s.Proceeds alive (.controlling c stopping phase) (s.pollController c stopping phase).2 := by
  have loops := s.loops_pollController c stopping phase
  have works : ∀ {ticker p ms}, s.Works c stopping ticker p ms →
      s.Proceeds alive (.controlling c stopping phase) p := by
    intro ticker p ms H
    cases H with
    | crashed => exact .loops (Poll.of_ended rfl) rfl rfl
    | ended | waits => exact .loops (Poll.of_rest rfl ⟨_, rfl⟩) rfl rfl
  generalize (s.pollController c stopping phase).2 = p at loops ⊢
  generalize s.marks _ = ms at loops
  cases loops with
  | goOn H => exact works H
  | begin due H => exact works H
  | stop | crash => exact .loops (Poll.of_ended rfl) rfl rfl
  | hold | create | delay | tick | wait =>
    exact .loops (Poll.of_rest rfl ⟨_, rfl⟩) rfl rfl

/-- **How tasks go on.** -/
theorem proceeds_poll (s : Scene) (alive : Nat → Bool) (number : Nat) (a : Activity) :
    s.Proceeds alive a (s.poll alive number a).2 := by
  cases a with
  | operating => exact proceeds_operating
  | sleeping =>
    simp only [poll]
    split
    · exact .ordinary rfl (Poll.of_rest rfl rfl) rfl
    · exact .ordinary rfl (Poll.of_ended rfl) rfl
  | awaiting =>
    simp only [poll, pollAwaiting]
    split
    · exact .ordinary rfl (Poll.of_ended rfl) rfl
    · split
      · exact .ordinary rfl (Poll.of_ended rfl) rfl
      · exact .ordinary rfl (Poll.of_rest rfl rfl) rfl
  | joining task c grace deadline start =>
    simp only [poll]
    split
    · rename_i gone
      exact .joined (by simpa using gone)
    · rename_i there
      have there : alive task = true := by simpa using there
      split
      · rename_i late
        exact .overdue there late
      · rename_i early
        exact .waits there (Nat.lt_of_not_le early)
  | releasing => exact proceeds_releasing
  | controlling => exact proceeds_controlling
  | dropped => exact .reaped

/-- Nobody becomes a controller. -/
theorem Proceeds.isControlling {a b : Activity} {p : Poll} (H : s.Proceeds alive a p)
    (kind : a.isControlling = false) (rest : p.rest? = some b) : b.isControlling = false := by
  cases H with
  | ordinary kind after =>
    have kind := after b rest
    cases b with
    | controlling => contradiction
    | _ => rfl
  | waits | joined | overdue => exact Option.some.inj rest ▸ rfl
  | releases after =>
    obtain ⟨_, _, rfl⟩ := after b rest
    rfl
  | loops => contradiction
  | reaped => contradiction

/-- Nobody is dropped but by those who wait. -/
theorem Proceeds.joins? {a b : Activity} {k : Nat} (H : s.Proceeds alive a (.dropping k b)) :
    a.joins? = some k := by
  cases H with
  | overdue => rfl
  | ordinary kind after drops | releases after drops | loops after drops =>
    exact absurd drops nofun

end Scene

/-- What may change around tasks: anything but the time and the guards. New processes have not taken
their guards. -/
structure Scene.Rearranges (s t : Scene) : Prop where
  elapsed : t.elapsed = s.elapsed
  length : s.replicas.length ≤ t.replicas.length
  guards : ∀ key, t.isTaken key = s.isTaken key

/-- Tasks over a scene. -/
@[ext]
structure Crowd where
  scene : Scene
  /-- The tasks that have not ended, by number. -/
  tasks : Nat → Option Activity := fun _ => none
  /-- The controllers that can be stopped, by name. -/
  handles : String → Option Handle := fun _ => none
  /-- The next number for a task. -/
  fresh : Nat := 0

namespace Crowd

/-! ## What can happen -/

/-- Something that happens in a crowd. -/
inductive Move where
  /-- The task with a number goes on. -/
  | go (n : Nat)
  /-- Time passes. -/
  | pass (time : Nat)
  /-- The surroundings change. -/
  | arrange (scene : Scene)
  | begin (a : Activity)
  /-- A number is left out. -/
  | skip
  | launch (l : Launch)
  /-- The controller of a handle is told to stop, and is waited for. -/
  | shutDown (handle : String) (grace : Nat)
  | dropHandle (handle : String)

/-- Whether a task has not ended. -/
def isAlive (w : Crowd) (n : Nat) : Bool := (w.tasks n).isSome

/-- Changes a task. -/
def setTask (w : Crowd) (n : Nat) (a : Option Activity) : Crowd :=
  { w with tasks := Function.update w.tasks n a }

/-- Adds a task. -/
def addTask (w : Crowd) (a : Activity) : Crowd :=
  { w.setTask w.fresh (some a) with fresh := w.fresh + 1 }

/-- Changes a handle. -/
def setHandle (w : Crowd) (name : String) (h : Option Handle) : Crowd :=
  { w with handles := Function.update w.handles name h }

/-- Starts a controller. A handle of the same name is dropped. -/
def launch (w : Crowd) (l : Launch) : Crowd :=
  (w.setHandle l.handle (some ⟨w.fresh, l.controller⟩)).addTask
    (.controlling l.controller false (.created l.delay))

/-- Gives a task up where it stands. -/
def drop (w : Crowd) (n : Nat) : Crowd := w.setTask n ((w.tasks n).map Activity.givenUp)

/-- Tells a controller to stop, and waits for it. -/
def shutDown (w : Crowd) (h : Handle) (grace : Nat) : Crowd :=
  (w.setTask h.task ((w.tasks h.task).map Activity.stopped)).addTask
    (.joining h.task h.controller grace (w.scene.elapsed + grace) w.scene.elapsed)

/-- The crowd when a task has gone on. -/
def advance (w : Crowd) (n : Nat) : Poll → Crowd
  | .ended _ => w.setTask n none
  | .launching l => (w.setTask n none).launch l
  | .blocked _ a | .again a => w.setTask n (some a)
  | .dropping k a => (w.setTask n (some a)).drop k

/-- The crowd after a move. Nothing happens where there is no such task or handle. -/
def turn (w : Crowd) : Move → Crowd
  | .go n =>
    match w.tasks n with
    | none => w
    | some a =>
      let (scene, poll) := w.scene.poll w.isAlive n a
      { w with scene }.advance n poll
  | .pass time => { w with scene := { w.scene with elapsed := max w.scene.elapsed time } }
  | .arrange scene => { w with scene }
  | .begin a => w.addTask a
  | .skip => { w with fresh := w.fresh + 1 }
  | .launch l => w.launch l
  | .shutDown name grace =>
    match w.handles name with
    | none => w
    | some h => (w.setHandle name none).shutDown h grace
  | .dropHandle name => w.setHandle name none

/-- The crowd after some moves. -/
def run (w : Crowd) (ms : List Move) : Crowd := ms.foldl turn w

/-- Whether a move may be made: what is begun is in order, and the guards are left to those who are
inside. -/
def Allows (w : Crowd) : Move → Prop
  | .begin a => a.isOrdinary = true ∧ a.cycle? = none ∧ a.IsInOrder w.scene
  | .arrange scene => w.scene.Rearranges scene
  | _ => True

/-- Whether moves may be made one after the other. -/
def Allowed : Crowd → List Move → Prop
  | _, [] => True
  | w, m :: ms => w.Allows m ∧ (w.turn m).Allowed ms

/-- The cycle that a task is inside. -/
def cycle? (w : Crowd) (n : Nat) : Option CycleKey := (w.tasks n).bind Activity.cycle?

/-- The controller that a task waits for. -/
def joins? (w : Crowd) (n : Nat) : Option Nat := (w.tasks n).bind Activity.joins?

variable {w w' : Crowd} {n k : Nat} {a : Activity} {m : Move} {ms ns : List Move} {l : Launch}

theorem run_append : w.run (ms ++ ns) = (w.run ms).run ns := List.foldl_append

theorem allowed_append : w.Allowed (ms ++ ns) ↔ w.Allowed ms ∧ (w.run ms).Allowed ns := by
  induction ms generalizing w with
  | nil => exact (and_iff_right trivial).symm
  | cons m ms ih => exact (and_congr_right fun _ => ih).trans and_assoc.symm

/-- What holds at the beginning and after each move holds after all of them. -/
theorem run_induction {P : Crowd → Prop} (turn : ∀ {w m}, P w → w.Allows m → P (w.turn m))
    (first : P w) (allowed : w.Allowed ms) : P (w.run ms) := by
  induction ms generalizing w with
  | nil => exact first
  | cons m ms ih => exact ih (turn first allowed.1) allowed.2

/-! ## One task among others -/

@[simp] theorem tasks_setTask {b : Option Activity} :
    (w.setTask k b).tasks n = if n = k then b else w.tasks n := Function.update_apply ..

@[simp] theorem scene_setTask {b : Option Activity} : (w.setTask k b).scene = w.scene := rfl

@[simp] theorem fresh_setTask {b : Option Activity} : (w.setTask k b).fresh = w.fresh := rfl

@[simp] theorem handles_setTask {b : Option Activity} : (w.setTask k b).handles = w.handles := rfl

@[simp] theorem tasks_addTask :
    (w.addTask a).tasks n = if n = w.fresh then some a else w.tasks n := tasks_setTask

@[simp] theorem scene_addTask : (w.addTask a).scene = w.scene := rfl

@[simp] theorem fresh_addTask : (w.addTask a).fresh = w.fresh + 1 := rfl

@[simp] theorem handles_addTask : (w.addTask a).handles = w.handles := rfl

@[simp] theorem tasks_setHandle {name : String} {h : Option Handle} :
    (w.setHandle name h).tasks = w.tasks := rfl

@[simp] theorem scene_setHandle {name : String} {h : Option Handle} :
    (w.setHandle name h).scene = w.scene := rfl

@[simp] theorem fresh_setHandle {name : String} {h : Option Handle} :
    (w.setHandle name h).fresh = w.fresh := rfl

@[simp] theorem handles_setHandle {name other : String} {h : Option Handle} :
    (w.setHandle name h).handles other = if other = name then h else w.handles other :=
  Function.update_apply ..

theorem setTask_launch (other : k ≠ w.fresh) {b : Option Activity} :
    (w.launch l).setTask k b = (w.setTask k b).launch l := by
  refine Crowd.ext rfl ?_ rfl rfl
  exact Function.update_comm other.symm _ _ _

theorem cycle?_of_tasks (h : w.tasks n = some a) : w.cycle? n = a.cycle? := by
  rw [cycle?, h, Option.bind_some]

/-! ## Guards -/

/-- **Guards are taken exactly while somebody is inside**, and nobody else is inside then. -/
structure IsGuarded (w : Crowd) : Prop where
  numbered : ∀ n a, w.tasks n = some a → n < w.fresh
  order : ∀ n a, w.tasks n = some a → a.IsInOrder w.scene
  taken : ∀ key, w.scene.isTaken key = true ↔ ∃ n, w.cycle? n = some key
  alone : ∀ key n k, w.cycle? n = some key → w.cycle? k = some key → n = k

namespace IsGuarded

variable (G : w.IsGuarded)
include G

theorem tasks_fresh : w.tasks w.fresh = none := by
  cases h : w.tasks w.fresh with
  | none => rfl
  | some a => exact absurd (G.numbered _ a h) (Nat.lt_irrefl _)

theorem ne_fresh (h : w.tasks n = some a) : n ≠ w.fresh := Nat.ne_of_lt (G.numbered n a h)

/-- Whoever is inside a cycle holds its guard. -/
theorem holds (h : w.tasks n = some a) : w.scene.Holds a.cycle? := by
  intro key inside
  exact (G.taken key).2 ⟨n, (cycle?_of_tasks h).trans inside⟩

/-- Nobody goes into a cycle or out of it. -/
theorem of_cycle? (numbered : ∀ n a, w'.tasks n = some a → n < w'.fresh)
    (order : ∀ n a, w'.tasks n = some a → a.IsInOrder w'.scene)
    (taken : ∀ key, w'.scene.isTaken key = w.scene.isTaken key)
    (same : ∀ n, w'.cycle? n = w.cycle? n) : w'.IsGuarded := by
  refine ⟨numbered, order, fun key => ?_, fun key n k => ?_⟩
  · rw [taken, G.taken]
    exact exists_congr fun n => by rw [same]
  · rw [same, same]
    exact G.alone key n k

/-- A task is changed that stays in its cycle. -/
theorem setTask {b : Activity} (h : w.tasks k = some a) (order : b.IsInOrder w.scene)
    (same : b.cycle? = a.cycle?) : (w.setTask k (some b)).IsGuarded := by
  refine G.of_cycle? ?_ ?_ (fun _ => rfl) ?_
  · intro n c hc
    rw [tasks_setTask] at hc
    split at hc
    · rename_i here
      exact here ▸ G.numbered k a h
    · exact G.numbered n c hc
  · intro n c hc
    rw [tasks_setTask] at hc
    split at hc
    · exact Option.some.inj hc ▸ order
    · exact G.order n c hc
  · intro n
    rw [cycle?, cycle?, tasks_setTask]
    split
    · rename_i here
      rw [here, h, Option.bind_some, Option.bind_some, same]
    · rfl

/-- A task is changed by what keeps tasks in their cycles. -/
theorem mapTask {f : Activity → Activity}
    (hf : ∀ a, w.tasks k = some a → (f a).IsInOrder w.scene ∧ (f a).cycle? = a.cycle?) :
    (w.setTask k ((w.tasks k).map f)).IsGuarded := by
  cases h : w.tasks k with
  | none =>
    have same : (w.setTask k none).tasks = w.tasks := by
      funext n
      rw [tasks_setTask]
      split
      · rename_i here
        rw [here, h]
      · rfl
    refine G.of_cycle? ?_ ?_ (fun _ => rfl) ?_
    · rw [Option.map_none, same]
      exact G.numbered
    · rw [Option.map_none, same]
      exact G.order
    · intro n
      rw [Option.map_none, cycle?, same, cycle?]
  | some a => exact G.setTask h (hf a h).1 (hf a h).2

/-- A task is added that is inside no cycle. -/
theorem addTask (order : a.IsInOrder w.scene) (outside : a.cycle? = none) :
    (w.addTask a).IsGuarded := by
  refine G.of_cycle? ?_ ?_ (fun _ => rfl) ?_
  · intro n b hb
    rw [tasks_addTask] at hb
    split at hb
    · rename_i here
      exact here ▸ Nat.lt_succ_self _
    · exact Nat.lt_succ_of_lt (G.numbered n b hb)
  · intro n b hb
    rw [tasks_addTask] at hb
    split at hb
    · exact Option.some.inj hb ▸ order
    · exact G.order n b hb
  · intro n
    rw [cycle?, cycle?, tasks_addTask]
    split
    · rename_i here
      rw [here, G.tasks_fresh]
      exact outside
    · rfl

theorem launch : (w.launch l).IsGuarded := by
  refine addTask ?_ trivial rfl
  exact ⟨G.numbered, G.order, G.taken, G.alone⟩

theorem shutDown {h : Handle} {grace : Nat} : (w.shutDown h grace).IsGuarded := by
  refine addTask ?_ trivial rfl
  refine G.mapTask fun a ha => ⟨?_, Activity.cycle?_stopped⟩
  exact Activity.isInOrder_stopped.2 (G.order _ a ha)

theorem drop (loop : ∀ a, w.tasks k = some a → a.isControlling = true) :
    (w.drop k).IsGuarded :=
  G.mapTask fun a ha => ⟨Activity.isInOrder_givenUp, Activity.cycle?_givenUp (loop a ha)⟩

/-- A task has gone on. -/
theorem went {scene : Scene} {p : Poll} (h : w.tasks k = some a)
    (leaves : w.scene.Leaves a.cycle? scene p) :
    ({ w with scene }.setTask k p.rest?).IsGuarded := by
  have own : w.cycle? k = a.cycle? := cycle?_of_tasks h
  have cycles : ∀ n, ({ w with scene }.setTask k p.rest?).cycle? n =
      if n = k then p.rest?.bind Activity.cycle? else w.cycle? n := by
    intro n
    rw [cycle?, tasks_setTask]
    split <;> rfl
  have held : ∀ key, scene.isTaken key = true ↔
      p.rest?.bind Activity.cycle? = some key ∨
        w.scene.isTaken key = true ∧ a.cycle? ≠ some key := by
    intro key
    rw [← leaves.swaps.others key]
    by_cases inside : p.rest?.bind Activity.cycle? = some key
    · simp [inside, leaves.swaps.holds key inside]
    · simp [inside]
  have others : ∀ key n, n ≠ k → w.cycle? n = some key → a.cycle? ≠ some key := by
    intro key n other inside here
    exact other (G.alone key n k inside (own.trans here))
  refine ⟨?_, ?_, ?_, ?_⟩
  · intro n b hb
    rw [tasks_setTask] at hb
    split at hb
    · rename_i here
      exact here ▸ G.numbered k a h
    · exact G.numbered n b hb
  · intro n b hb
    rw [tasks_setTask] at hb
    split at hb
    · exact leaves.order b hb
    · exact (G.order n b hb).mono (Nat.le_of_eq leaves.swaps.length.symm)
  · intro key
    refine (held key).trans ⟨?_, ?_⟩
    · rintro (inside | ⟨taken, other⟩)
      · exact ⟨k, by rw [cycles, if_pos rfl, inside]⟩
      · obtain ⟨n, inside⟩ := (G.taken key).1 taken
        refine ⟨n, ?_⟩
        rw [cycles, if_neg, inside]
        rintro rfl
        exact other (own.symm.trans inside)
    · rintro ⟨n, inside⟩
      rw [cycles] at inside
      split at inside
      · exact .inl inside
      · rename_i other
        exact .inr ⟨(G.taken key).2 ⟨n, inside⟩, others key n other inside⟩
  · -- the one that has gone on is in no cycle in which another one is
    have apart : ∀ key n, n ≠ k → w.cycle? n = some key →
        p.rest?.bind Activity.cycle? ≠ some key := by
      intro key n other inside here
      have := (leaves.swaps.others key).2 ⟨(G.taken key).2 ⟨n, inside⟩, others key n other inside⟩
      exact this.2 here
    intro key n j hn hj
    rw [cycles] at hn hj
    split at hn <;> split at hj
    · rename_i first second
      exact first.trans second.symm
    · rename_i other
      exact absurd hn (apart key j other hj)
    · rename_i other _
      exact absurd hj (apart key n other hn)
    · exact G.alone key n j hn hj

/-- **Guards are in order after each move**, provided that only controllers are dropped. -/
theorem turn (allowed : w.Allows m)
    (loops : ∀ n k a, w.joins? n = some k → w.tasks k = some a → a.isControlling = true) :
    (w.turn m).IsGuarded := by
  cases m with
  | go n =>
    simp only [Crowd.turn]
    split
    · exact G
    · rename_i a h
      have leaves := Scene.leaves_poll w.isAlive n (G.holds h) (G.order n a h)
      have proceeds : w.scene.Proceeds w.isAlive a (w.scene.poll w.isAlive n a).2 :=
        w.scene.proceeds_poll w.isAlive n a
      generalize w.scene.poll w.isAlive n a = polled at leaves proceeds
      obtain ⟨scene, poll⟩ := polled
      have went := G.went h leaves
      cases poll with
      | ended | blocked | again => exact went
      | launching => exact went.launch
      | dropping k b =>
        refine went.drop fun c hc => ?_
        have waits : a.joins? = some k := proceeds.joins?
        have joins : w.joins? n = some k := by rw [joins?, h]; exact waits
        rw [tasks_setTask] at hc
        split at hc
        · rename_i own
          subst own
          have kind := loops k k a joins h
          cases a with
          | controlling => contradiction
          | _ => exact absurd kind nofun
        · exact loops n k c joins hc
  | pass time =>
    refine G.of_cycle? G.numbered (fun n a h => ?_) (fun _ => rfl) fun _ => rfl
    exact (G.order n a h).mono (Nat.le_refl _)
  | arrange scene =>
    have allowed : w.scene.Rearranges scene := allowed
    refine G.of_cycle? G.numbered (fun n a h => ?_) allowed.guards fun _ => rfl
    exact (G.order n a h).mono allowed.length
  | begin a => exact G.addTask allowed.2.2 allowed.2.1
  | skip =>
    refine G.of_cycle? (fun n a h => ?_) G.order (fun _ => rfl) fun _ => rfl
    exact Nat.lt_succ_of_lt (G.numbered n a h)
  | launch l => exact G.launch
  | shutDown name grace =>
    simp only [Crowd.turn]
    split
    · exact G
    · refine shutDown ?_
      exact ⟨G.numbered, G.order, G.taken, G.alone⟩
  | dropHandle name => exact ⟨G.numbered, G.order, G.taken, G.alone⟩

end IsGuarded

end Crowd

end LeasePool
