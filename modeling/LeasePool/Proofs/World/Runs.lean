import LeasePool.Proofs.World.Elapsed
import Mathlib.Logic.Relation

/-!
# Runs of worlds

What can happen in a world, one thing after the other, and what can be done to it from outside
while nothing happens. All that a step does is made of these, so what holds of all runs holds of
all sequences of steps.
-/

namespace LeasePool

/-- What a controller looks like when it has been told to stop. -/
def Task.stopped (t : Task) : Task :=
  match t.activity with
  | .controlling c _ phase => { t with activity := .controlling c true phase }
  | _ => t

namespace World

/-- The task with a number. -/
def taskOf? (w : World) (n : Nat) : Option Task := w.tasks.find? fun t => t.number = n

/-- What can happen. -/
inductive Change (w : World) : World → Prop
  | foreground {t : Task} (focus : w.focus = some .foreground) (task : w.foreground = some t) :
    Change w (w.runForeground t)
  /-- There is no foreground to go on. -/
  | idle (focus : w.focus = some .foreground) :
    Change w { w with focus := none, awake := false }
  | task {n : Nat} {t : Task} (focus : w.focus = some (.task n)) (task : w.taskOf? n = some t) :
    Change w (w.runTask t)
  /-- There is no such task. -/
  | gone {n : Nat} (focus : w.focus = some (.task n)) (task : w.taskOf? n = none) :
    Change w { w with focus := none }
  | pick {n : Nat} {ready : List Nat} (focus : w.focus = none) (next : w.ready = n :: ready) :
    Change w { w with ready, focus := some (.task n) }
  | wake (focus : w.focus = none) (rest : w.ready = []) :
    Change w { w with focus := some .foreground }
  | pass {deadline : Nat} (focus : w.focus = none) (rest : w.ready = [])
    (next : w.nextDeadline? = some deadline) : Change w (w.passTo deadline)

/-- **What happens is one of the things that can.** -/
theorem change_of_next? {w w' : World} (h : w.next? = some w') : w.Change w' := by
  unfold next? at h
  split at h
  · rename_i focus
    split at h
    · rename_i task
      exact Option.some.inj h ▸ .foreground focus task
    · exact Option.some.inj h ▸ .idle focus
  · rename_i focus
    split at h
    · rename_i task
      exact Option.some.inj h ▸ .task focus task
    · rename_i task
      exact Option.some.inj h ▸ .gone focus task
  · rename_i focus
    split at h
    · rename_i next
      exact Option.some.inj h ▸ .pick focus next
    · rename_i rest
      split at h
      · contradiction
      · split at h
        · exact Option.some.inj h ▸ .wake focus rest
        · obtain ⟨deadline, next, rfl⟩ := Option.map_eq_some_iff.1 h
          exact .pass focus rest next

/-- What can be done from outside. -/
inductive Touch (w : World) : World → Prop
  /-- The store, its faults, the clock and the replicas are changed, and what no task looks at. -/
  | around {scene : Scene} {fresh : Nat} {outcome : Option Answer}
    {finished : List (Nat × Answer)} {handles : List (String × Handle)}
    {background replicas : List (String × Nat)} {saved : List (String × Lease)}
    (same : scene.elapsed = w.scene.elapsed) (later : w.fresh ≤ fresh) :
    Touch w { w with scene, fresh, outcome, finished, handles, background, replicas, saved }
  | await (activity : Activity) : Touch w (w.await activity)
  | add (activity : Activity) : Touch w (w.addTask activity)
  /-- A controller is told to stop. -/
  | stop (n : Nat) : Touch w (w.modifyTask n Task.stopped)
  | rouse : Touch w w.rouse

/-- The foreground has ended, and nobody can go on. -/
structure IsIdle (w : World) : Prop where
  focus : w.focus = none
  ready : w.ready = []
  foreground : w.foreground = none

/-- Something happens, or something is done while nothing happens. -/
inductive Turn (w : World) : World → Prop
  | next {w' : World} (next : w.next? = some w') : Turn w w'
  | touch {w' : World} (idle : w.IsIdle) (touch : w.Touch w') : Turn w w'

/-- Any number of turns. -/
abbrev Passes : World → World → Prop := Relation.ReflTransGen Turn

/-! ## Steps are runs -/

variable {w w' : World} {n k : Nat} {t : Task}

theorem passes_settleWithin {fuel : Nat} : Passes w (w.settleWithin fuel) := by
  induction fuel generalizing w with
  | zero => exact .refl
  | succ fuel ih =>
    simp only [settleWithin]
    split
    · rename_i next
      exact .head (.next next) ih
    · exact .refl

theorem passes_settle : Passes w w.settle := passes_settleWithin

theorem passes_touch (idle : w.IsIdle) (touch : w.Touch w') : Passes w w' :=
  .single (.touch idle touch)

/-- What somebody waits for has come. -/
theorem passes_await {a : Activity} (idle : w.IsIdle)
    (ended : (w.await a).settle.answered.1.IsIdle) :
    Passes w (w.await a).settle.answered.1 := by
  refine (passes_touch idle (.await a)).trans (passes_settle.trans ?_)
  exact passes_touch ⟨ended.focus, ended.ready, ended.foreground⟩ (.around rfl (Nat.le_refl _))

theorem passes_attempt {α : Type} {id : String} {x : Participant → Attempt α} {f : α → Answer}
    (idle : w.IsIdle) (ended : (w.attempt id x f).1.IsIdle) : Passes w (w.attempt id x f).1 := by
  unfold attempt at ended ⊢
  split
  · exact .refl
  · rename_i i r found
    rw [found] at ended
    exact passes_await idle ended

theorem passes_aside {name : String} {a : Activity} (idle : w.IsIdle) :
    Passes w (w.aside name a).1 := by
  refine .head (.touch idle (.around rfl (Nat.le_refl _)))
    (.head (.touch ?_ (.add a)) passes_settle)
  exact ⟨idle.focus, idle.ready, idle.foreground⟩

theorem passes_stepOutside {s : Step} (idle : w.IsIdle) (ended : (w.stepOutside s).1.IsIdle) :
    Passes w (w.stepOutside s).1 := by
  have around : ∀ {w'}, w.Touch w' → Passes w w' := passes_touch idle
  cases s with
  | call c => exact passes_await idle ended
  | sleep millis => exact passes_await idle ended
  | save ns name as =>
    simp only [stepOutside]
    split
    · exact around (.around rfl (Nat.le_refl _))
    · exact .refl
  | advance span =>
    simp only [stepOutside]
    split
    · exact around (.around rfl (Nat.le_refl _))
    · exact .refl
  | now =>
    simp only [stepOutside]
    split <;> exact .refl
  | seed | addPod | setReplicas | putLease | removeLease | putWorkload | removeWorkload | switch
  | fault | clearFaults | replica => exact around (.around rfl (Nat.le_refl _))
  | _ => exact .refl

theorem passes_stepOperation {s : Step} (idle : w.IsIdle)
    (ended : (w.stepOperation s).1.IsIdle) : Passes w (w.stepOperation s).1 := by
  cases s with
  | tick | cycle | release | stop =>
    simp only [stepOperation] at ended ⊢
    split
    · rename_i found
      rw [found] at ended
      exact passes_await idle ended
    · exact .refl
  | renew =>
    simp only [stepOperation] at ended ⊢
    split
    · rename_i found
      rw [found] at ended
      exact passes_attempt idle ended
    · exact .refl
  | reconcile | acquire | ensureMember | renewByName | acquireLeader | acquireMember
  | releaseLease | desired | owners =>
    simp only [stepOperation] at ended ⊢
    exact passes_attempt idle ended
  | _ => exact .refl

theorem passes_stepMembership {s : Step} (idle : w.IsIdle)
    (ended : (w.stepMembership s).1.IsIdle) : Passes w (w.stepMembership s).1 := by
  cases s with
  | view | report =>
    simp only [stepMembership]
    split <;> exact .refl
  | collect task =>
    simp only [stepMembership]
    split
    · exact .refl
    · split
      · exact .refl
      · exact passes_touch idle (.around rfl (Nat.le_refl _))
  | deliver id kind lease =>
    simp only [stepMembership]
    split
    · refine .head (.touch idle (.around (by rfl) (Nat.le_refl _))) (.head (.touch ?_ .rouse)
        passes_settle)
      exact ⟨idle.focus, idle.ready, idle.foreground⟩
    · exact .refl
  | await id limit =>
    simp only [stepMembership] at ended ⊢
    split
    · rename_i found
      rw [found] at ended
      simp only at ended
      split
      · exact .refl
      · rename_i waits
        rw [waits] at ended
        exact passes_await idle ended
    · exact .refl
  | awaitAside id limit task =>
    simp only [stepMembership]
    split
    · split
      · exact passes_touch idle (.around rfl (Nat.le_succ _))
      · exact passes_aside idle
    · exact .refl
  | cycleAside id role task =>
    simp only [stepMembership]
    split
    · exact passes_aside idle
    · exact .refl
  | spawn id role interval delay handle primed =>
    simp only [stepMembership] at ended ⊢
    split
    · rename_i found
      rw [found] at ended
      simp only at ended
      split
      · rename_i first
        rw [if_pos first] at ended
        exact passes_await idle ended
      · refine .head (.touch idle (.around rfl (Nat.le_refl _))) (.head (.touch ?_ (.add _))
          passes_settle)
        exact ⟨idle.focus, idle.ready, idle.foreground⟩
    · exact .refl
  | shutdown handle grace =>
    simp only [stepMembership] at ended ⊢
    split
    · rename_i h found
      rw [found] at ended
      refine .head (.touch idle (.around rfl (Nat.le_refl _))) (.head (.touch ?_ (.stop h.task))
        (passes_await ?_ ended))
      · exact ⟨idle.focus, idle.ready, idle.foreground⟩
      · exact ⟨idle.focus, idle.ready, idle.foreground⟩
    · exact .refl
  | dropHandle => exact passes_touch idle (.around rfl (Nat.le_refl _))
  | _ => exact .refl

/-- **A step is a run**, if it comes to an end. -/
theorem passes_step {s : Step} (idle : w.IsIdle) (ended : (w.step s).1.IsIdle) :
    Passes w (w.step s).1 := by
  cases s <;> simp only [step] at ended ⊢ <;>
    first
    | exact passes_stepOutside idle ended
    | exact passes_stepOperation idle ended
    | exact passes_stepMembership idle ended

end World

end LeasePool
