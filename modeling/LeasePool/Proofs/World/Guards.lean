import LeasePool.Proofs.Fleet.History
import LeasePool.Proofs.Pool.Requests
import LeasePool.Proofs.World.Elapsed

/-!
# Cycles and their guards

A guard is taken exactly while a cycle is inside: whoever goes on holds the guard of the cycle that
it is inside, takes a guard only if nobody holds it, and leaves those of others alone. It does so
whether it ends, crashes, waits or is given up.
-/

namespace LeasePool

/-! ## Operations in order -/

/-- Whether a query is in order inside the cycle of a role, or inside none: a cycle begins inside no
other one and where there is a guard for it, and ends while it is under way. -/
def Query.IsInOrder (guarded : Prop) (inside : Option Role) : Query → Prop
  | enter _ => guarded ∧ inside = none
  | leave role => inside = some role
  | now | knownDeployment | setKnownDeployment _ | heldLease | announce .. => True

/-- An operation begins and ends cycles in order. It begins inside the cycle of a role, or inside
none, and is inside none at its end. -/
def Operation.IsInOrder {α : Type} (guarded : Prop) : (inside : Option Role) → Operation α → Prop
  | inside, done _ => inside = none
  | _, crash => True
  | inside, call _ next => ∀ reply, (next reply).IsInOrder guarded inside
  | inside, ask q next => q.IsInOrder guarded inside ∧
    ∀ a, (next a).IsInOrder guarded (q.inside inside a)

namespace Operation

variable {α β : Type} {guarded guarded' : Prop} {inside : Option Role}

theorem IsInOrder.mono {x : Operation α} (H : x.IsInOrder guarded inside)
    (h : guarded → guarded') : x.IsInOrder guarded' inside := by
  induction x generalizing inside with
  | done a => exact H
  | crash => trivial
  | call c next ih => exact fun reply => ih reply (H reply)
  | ask q next ih =>
    refine ⟨?_, fun a => ih a (H.2 a)⟩
    cases q with
    | enter role => exact ⟨h H.1.1, H.1.2⟩
    | _ => exact H.1

/-- What comes after an operation in order begins inside no cycle. -/
theorem isInOrder_bind {x : Operation α} {f : α → Operation β} (hx : x.IsInOrder guarded inside)
    (hf : ∀ a, (f a).IsInOrder guarded none) : (x.bind f).IsInOrder guarded inside := by
  induction x generalizing inside with
  | done a =>
    obtain rfl : inside = none := hx
    exact hf a
  | crash => trivial
  | call c next ih => exact fun reply => ih reply (hx reply)
  | ask q next ih => exact ⟨hx.1, fun a => ih a (hx.2 a)⟩

/-- What comes after an operation that asks about no cycle begins where that one began. -/
theorem Asks.isInOrder_bind {x : Operation α} {f : α → Operation β} (hx : x.Asks Query.IsOfWork)
    (hf : ∀ a, (f a).IsInOrder guarded inside) : (x.bind f).IsInOrder guarded inside := by
  induction x with
  | done a => exact hf a
  | crash => trivial
  | call c next ih => exact fun reply => ih reply (hx reply)
  | ask q next ih =>
    obtain ⟨work, rest⟩ := hx
    cases q with
    | enter role | leave role => exact work.elim
    | now | knownDeployment | setKnownDeployment | heldLease | announce =>
      exact ⟨trivial, fun a => ih a (rest a)⟩

/-- An operation that asks about no cycle is in order. -/
theorem Asks.isInOrder {x : Operation α} (hx : x.Asks Query.IsOfWork) :
    x.IsInOrder guarded none := by
  rw [← bind_done x]
  exact hx.isInOrder_bind fun _ => rfl

end Operation

namespace Participant

variable {p : Participant} {role : Role}

/-- **A cycle begins and ends in order.** -/
theorem isInOrder_cycle : (p.cycle role).IsInOrder True none := by
  unfold cycle
  split
  · refine ⟨⟨trivial, rfl⟩, ?_⟩
    intro entered
    cases entered with
    | false => exact (rfl : (none : Option Role) = none)
    | true => exact asks_work.isInOrder_bind fun _ => ⟨rfl, fun _ => rfl⟩
  · exact (rfl : (none : Option Role) = none)

theorem isInOrder_release {guarded : Prop} : (p.release role).IsInOrder guarded none :=
  asks_release.isInOrder

end Participant

theorem World.isInOrder_silent {x : Operation Unit} {guarded : Prop} {inside : Option Role}
    (H : x.IsInOrder guarded inside) : (silent x).IsInOrder guarded inside :=
  Operation.isInOrder_bind H fun _ => rfl

/-! ## Guards -/

/-- The cycles of a role of a replica. -/
abbrev CycleKey : Type := Nat × Role

namespace Scene

/-- Whether the guard for the cycles of a role of a replica is taken. -/
def isTaken (s : Scene) (key : CycleKey) : Bool :=
  s.replicas[key.1]?.any fun r => (r.guards.get key.2).isRunning

variable {α : Type} {s t u : Scene} {i : Nat} {key : CycleKey} {own own' own'' : Option CycleKey}

theorem isTaken_of_replicas (same : t.replicas = s.replicas) : t.isTaken key = s.isTaken key := by
  rw [isTaken, isTaken, same]

/-- A change that keeps the guards. -/
theorem isTaken_modifyReplica {f : Replica → Replica} (keeps : ∀ r, (f r).guards = r.guards) :
    (s.modifyReplica i f).isTaken key = s.isTaken key := by
  simp only [isTaken, replicas_modifyReplica]
  split
  · cases s.replicas[key.1]? <;> simp [keeps]
  · rfl

theorem length_modifyReplica {f : Replica → Replica} :
    (s.modifyReplica i f).replicas.length = s.replicas.length := List.length_modify ..

/-- A guard that is set. -/
theorem isTaken_set {role : Role} {g : CycleGuard → CycleGuard} :
    (s.modifyReplica i fun r =>
      { r with guards := r.guards.set role (g (r.guards.get role)) }).isTaken key =
      if key = (i, role) then s.replicas[i]?.any fun r => (g (r.guards.get role)).isRunning
      else s.isTaken key := by
  obtain ⟨j, other⟩ := key
  simp only [isTaken, replicas_modifyReplica, Prod.mk.injEq]
  by_cases here : i = j
  · subst here
    cases s.replicas[i]? with
    | none => simp
    | some r => cases role <;> cases other <;> simp [PerRole.set, PerRole.get]
  · simp [here, Ne.symm here]

theorem isTaken_leave {role : Role} :
    (s.leave i role).isTaken key = (s.isTaken key && key ≠ (i, role)) := by
  refine (isTaken_set (g := CycleGuard.leave)).trans ?_
  by_cases here : key = (i, role)
  · simp [here, CycleGuard.leave]
  · simp [here]

/-- What becomes of the guards when somebody goes on who is inside one cycle, or none, and inside
another one, or none, afterwards: it holds the guard of the cycle that it is inside, and the others
hold what they held before. -/
structure Swaps (s : Scene) (own : Option CycleKey) (t : Scene) (own' : Option CycleKey) :
    Prop where
  length : t.replicas.length = s.replicas.length
  holds : ∀ key, own' = some key → t.isTaken key = true
  others : ∀ key, (t.isTaken key = true ∧ own' ≠ some key) ↔ (s.isTaken key = true ∧ own ≠ some key)

/-- Somebody holds the guard of the cycle that it is inside. -/
def Holds (s : Scene) (own : Option CycleKey) : Prop := ∀ key, own = some key → s.isTaken key = true

theorem Holds.none (s : Scene) : s.Holds none := fun _ h => absurd h nofun

namespace Swaps

theorem refl (holds : s.Holds own) : s.Swaps own s own := ⟨rfl, holds, fun _ => Iff.rfl⟩

theorem trans (H : s.Swaps own t own') (K : t.Swaps own' u own'') : s.Swaps own u own'' :=
  ⟨K.length.trans H.length, K.holds, fun key => (K.others key).trans (H.others key)⟩

/-- Whoever keeps to its cycle and leaves the guards alone. -/
theorem of_isTaken (holds : s.Holds own) (length : t.replicas.length = s.replicas.length)
    (same : ∀ key, t.isTaken key = s.isTaken key) : s.Swaps own t own := by
  refine ⟨length, ?_, ?_⟩
  · intro key inside
    rw [same]
    exact holds key inside
  · intro key
    rw [same]

theorem of_replicas (holds : s.Holds own) (same : t.replicas = s.replicas) :
    s.Swaps own t own :=
  .of_isTaken holds (congrArg List.length same) fun _ => isTaken_of_replicas same

/-- A cycle is left. -/
theorem leave {role : Role} : s.Swaps (some (i, role)) (s.leave i role) none where
  length := length_modifyReplica
  holds _ h := absurd h nofun
  others key := by
    rw [isTaken_leave]
    by_cases here : key = (i, role)
    · simp [here]
    · simp [here, Ne.symm here]

/-- A guard that nobody holds is taken. -/
theorem enter {role : Role} (there : i < s.replicas.length) (free : s.isTaken (i, role) = false) :
    s.Swaps none (s.modifyReplica i fun r =>
      { r with guards := r.guards.set role (r.guards.get role).tryEnter.2 }) (some (i, role)) where
  length := length_modifyReplica
  holds key inside := by
    obtain rfl := Option.some.inj inside
    refine (isTaken_set (g := fun g => g.tryEnter.2)).trans ?_
    simp [CycleGuard.tryEnter, List.getElem?_eq_getElem there]
  others key := by
    have taken : (s.modifyReplica i fun r =>
        { r with guards := r.guards.set role (r.guards.get role).tryEnter.2 }).isTaken key = _ :=
      isTaken_set (g := fun g => g.tryEnter.2)
    rw [taken]
    by_cases here : key = (i, role)
    · subst here
      simp [free]
    · simp [here, Ne.symm here]

end Swaps

/-! ## Operations -/

/-- The cycle of a process that is inside that of a role, or inside none. -/
def cycleAt (i : Nat) (inside : Option Role) : Option CycleKey := inside.map fun role => (i, role)

variable {inside : Option Role}

theorem swaps_abandon (holds : s.Holds (cycleAt i inside)) :
    s.Swaps (cycleAt i inside) (s.abandon i inside) none := by
  cases inside with
  | none => exact .refl holds
  | some role => exact .leave

/-- Who asks for a guard that is taken does not get in. -/
theorem swaps_enter {role : Role} {entered : Bool} (there : i < s.replicas.length)
    (asked : s.ask i (.enter role) = some (entered, t)) :
    s.Swaps none t (cycleAt i (Query.inside none (.enter role) entered)) := by
  obtain ⟨rfl, rfl⟩ := Prod.mk.inj (Option.some.inj asked)
  have there' : s.replicas[i]? = some s.replicas[i] := List.getElem?_eq_getElem there
  cases taken : s.isTaken (i, role) with
  | false =>
    have free : (s.replicas[i].guards.get role).isRunning = false := by
      simpa [isTaken, there'] using taken
    simpa [there', CycleGuard.tryEnter, free, Query.inside, cycleAt] using
      Swaps.enter there taken
  | true =>
    have busy : (s.replicas[i].guards.get role).isRunning = true := by
      simpa [isTaken, there'] using taken
    simp only [there', CycleGuard.tryEnter, busy, Query.inside, cycleAt, Option.any_some,
      Bool.not_true, decide_true, Option.map_none]
    refine .of_isTaken (.none s) length_modifyReplica fun key => ?_
    refine (isTaken_set (g := fun g => g.tryEnter.2)).trans ?_
    split
    · rename_i here
      rw [here, taken, there']
      rfl
    · rfl

theorem swaps_ask {q : Query} {a : q.Answer} (holds : s.Holds (cycleAt i inside))
    (order : q.IsInOrder (i < s.replicas.length) inside) (asked : s.ask i q = some (a, t)) :
    s.Swaps (cycleAt i inside) t (cycleAt i (q.inside inside a)) := by
  cases q with
  | enter role =>
    obtain ⟨there, rfl⟩ := order
    exact swaps_enter there asked
  | leave role =>
    obtain rfl : inside = some role := order
    obtain rfl := congrArg Prod.snd (Option.some.inj asked)
    exact .leave
  | now =>
    obtain ⟨now, -, same⟩ := Option.map_eq_some_iff.1 asked
    cases same
    exact .refl holds
  | announce kind lease =>
    obtain rfl := congrArg Prod.snd (Option.some.inj asked)
    have same : (s.announce i kind lease).replicas = _ := replicas_announce
    refine .of_isTaken holds ?_ fun key => ?_
    · rw [same]
      exact length_modifyReplica
    · rw [isTaken_of_replicas same]
      exact isTaken_modifyReplica fun _ => rfl
  | setKnownDeployment name =>
    obtain rfl := congrArg Prod.snd (Option.some.inj asked)
    exact .of_isTaken holds length_modifyReplica fun key => isTaken_modifyReplica fun _ => rfl
  | knownDeployment | heldLease =>
    obtain rfl := congrArg Prod.snd (Option.some.inj asked)
    exact .refl holds

end Scene

namespace Running

variable {α : Type}

/-- The cycle that an operation under way is inside. -/
def cycle? (r : Running α) : Option CycleKey := Scene.cycleAt r.replica r.inside

/-- What is left of an operation under way is in order. -/
def IsInOrder (s : Scene) (r : Running α) : Prop :=
  match r.rest with
  | .inl x => x.IsInOrder (r.replica < s.replicas.length) r.inside
  | .inr suspended =>
    ∀ reply, (suspended.next reply).IsInOrder (r.replica < s.replicas.length) r.inside

end Running

namespace Progress

variable {α : Type}

/-- What is left of an operation that waits. -/
def rest? : Progress α → Option (Running α)
  | waiting _ rest => some rest
  | ended _ | crashed => none

/-- The cycle that an operation is inside when it has gone on. -/
def cycle? (p : Progress α) : Option CycleKey := p.rest?.bind Running.cycle?

end Progress

namespace Scene

variable {α : Type} {s t u : Scene} {i : Nat} {inside : Option Role} {own own' : Option CycleKey}

/-- How the guards are, and what is left of an operation in order, when it has gone on. -/
structure Carries (s : Scene) (own : Option CycleKey) (t : Scene) (p : Progress α) : Prop where
  swaps : s.Swaps own t p.cycle?
  order : ∀ rest, p.rest? = some rest → rest.IsInOrder t

theorem Carries.after {p : Progress α} (H : s.Swaps own t own') (K : t.Carries own' u p) :
    s.Carries own u p := ⟨H.trans K.swaps, K.order⟩

theorem carries_called {call : StoreCall} {next : call.Reply → Operation α}
    {went : Scene × CallProgress call} (holds : s.Holds (cycleAt i inside))
    (same : s.SameProcesses went.1)
    (order : ∀ reply, (next reply).IsInOrder (i < s.replicas.length) inside)
    (rest : ∀ reply, went.1.Holds (cycleAt i inside) →
      (next reply).IsInOrder (i < went.1.replicas.length) inside →
      went.1.Carries (cycleAt i inside) (run i inside (next reply) went.1).1
        (run i inside (next reply) went.1).2) :
    s.Carries (cycleAt i inside) (called i inside next went).1 (called i inside next went).2 := by
  obtain ⟨t, progress⟩ := went
  have swaps : s.Swaps (cycleAt i inside) t (cycleAt i inside) := .of_replicas holds same.replicas
  have order : ∀ reply, (next reply).IsInOrder (i < t.replicas.length) inside := by
    rw [swaps.length]
    exact order
  cases progress with
  | replied reply => exact .after swaps (rest reply swaps.holds (order reply))
  | crashed => exact ⟨swaps.trans (swaps_abandon swaps.holds), fun _ h => absurd h nofun⟩
  | waiting millis stage =>
    refine ⟨swaps, ?_⟩
    rintro _ ⟨⟩
    exact order

/-- **An operation in order leaves the guards in order**, however far it comes. -/
theorem swaps_run {x : Operation α} (holds : s.Holds (cycleAt i inside))
    (order : x.IsInOrder (i < s.replicas.length) inside) :
    s.Carries (cycleAt i inside) (run i inside x s).1 (run i inside x s).2 := by
  induction x generalizing s inside with
  | done a =>
    obtain rfl : inside = none := order
    exact ⟨.refl holds, fun r h => absurd h.symm (Option.some_ne_none r)⟩
  | crash => exact ⟨swaps_abandon holds, fun r h => absurd h.symm (Option.some_ne_none r)⟩
  | call c next ih =>
    rw [run_call]
    exact carries_called holds sameProcesses_call order fun reply => ih reply
  | ask q next ih =>
    simp only [run]
    split
    · rename_i a t asked
      have swaps := swaps_ask holds order.1 asked
      refine .after swaps (ih a swaps.holds ?_)
      rw [swaps.length]
      exact order.2 a
    · exact ⟨swaps_abandon holds, fun r h => absurd h.symm (Option.some_ne_none r)⟩

theorem swaps_resume {r : Running α} (holds : s.Holds r.cycle?) (order : r.IsInOrder s) :
    s.Carries r.cycle? (s.resume r).1 (s.resume r).2 := by
  obtain ⟨i, inside, rest⟩ := r
  cases rest with
  | inl x => exact swaps_run holds order
  | inr suspended =>
    rw [resume_suspended]
    exact carries_called holds sameProcesses_goOn order fun reply => swaps_run

end Scene

/-! ## Tasks -/

namespace Activity

/-- The cycle that a task is inside. -/
def cycle? : Activity → Option CycleKey
  | operating _ run .. => run.cycle?
  | releasing _ run .. => run.cycle?
  | controlling _ _ (.cycling _ _ run) => run.cycle?
  | dropped replica inside => Scene.cycleAt replica inside
  | _ => none

/-- What is left of the operations of a task is in order. -/
def IsInOrder (s : Scene) : Activity → Prop
  | operating _ run queue .. => run.IsInOrder s ∧
    ∀ next ∈ queue, next.2.IsInOrder (next.1 < s.replicas.length) none
  | releasing _ run .. => run.IsInOrder s
  | controlling _ _ (.cycling _ _ run) => run.IsInOrder s
  | _ => True

/-- An operation that begins. -/
theorem isInOrder_operating {s : Scene} {deadline i start : Nat} {x : Operation Answer}
    {queue : List (Nat × Operation Answer)} {ending : Ending}
    (H : x.IsInOrder (i < s.replicas.length) none)
    (later : ∀ next ∈ queue, next.2.IsInOrder (next.1 < s.replicas.length) none := by
      exact List.forall_mem_nil _) :
    (operating deadline (.start i x) queue start ending).IsInOrder s := ⟨H, later⟩

/-- There may be more replicas than before. -/
theorem IsInOrder.mono {s t : Scene} {a : Activity} (H : a.IsInOrder s)
    (more : s.replicas.length ≤ t.replicas.length) : a.IsInOrder t := by
  have runs : ∀ {α : Type} {r : Running α}, r.IsInOrder s → r.IsInOrder t := by
    intro α r H
    obtain ⟨i, inside, rest⟩ := r
    cases rest with
    | inl x => exact H.mono fun there => Nat.lt_of_lt_of_le there more
    | inr suspended => exact fun reply => (H reply).mono fun there => Nat.lt_of_lt_of_le there more
  cases a with
  | operating =>
    refine ⟨runs H.1, fun next hn => ?_⟩
    exact (H.2 next hn).mono fun there => Nat.lt_of_lt_of_le there more
  | releasing => exact runs H
  | controlling c stopping phase =>
    cases phase with
    | cycling => exact runs H
    | created | delaying | between => trivial
  | sleeping | awaiting | joining | dropped => trivial

end Activity

/-- What a task is doing when it has gone on, unless it has ended. -/
def Poll.rest? : Poll → Option Activity
  | blocked _ a | again a | dropping _ a => some a
  | ended _ | launching _ => none

namespace Poll

variable {p : Poll} {a : Activity} {P : Activity → Prop}

/-- Nothing is left of a task that has ended. -/
theorem of_ended (ended : p.rest? = none) (b : Activity) (rest : p.rest? = some b) : P b :=
  absurd (rest.symm.trans ended) (Option.some_ne_none b)

/-- A property of what is left of a task is one of the activity it goes on with. -/
theorem of_rest (rest : p.rest? = some a) (holds : P a) (b : Activity) (same : p.rest? = some b) :
    P b :=
  Option.some.inj (rest.symm.trans same) ▸ holds

end Poll

namespace Scene

variable {s t : Scene} {own : Option CycleKey}

/-- How the guards are, and what is left of a task, when it has gone on. -/
structure Leaves (s : Scene) (own : Option CycleKey) (t : Scene) (p : Poll) : Prop where
  swaps : s.Swaps own t (p.rest?.bind Activity.cycle?)
  order : ∀ a, p.rest? = some a → a.IsInOrder t

/-- A task that ends. -/
theorem leaves_of_ended {p : Poll} (ended : p.rest? = none) (swaps : s.Swaps own t none) :
    s.Leaves own t p :=
  ⟨by rwa [ended], Poll.of_ended ended⟩

/-- A task that goes on. -/
theorem leaves_of_rest {p : Poll} {a : Activity} (rest : p.rest? = some a)
    (swaps : s.Swaps own t a.cycle?) (order : a.IsInOrder t) : s.Leaves own t p :=
  ⟨by rwa [rest], Poll.of_rest rest order⟩

theorem isInOrder_cycleOf {i : Nat} {role : Role} :
    (s.cycleOf i role).IsInOrder (i < s.replicas.length) none := by
  unfold cycleOf
  split
  · rename_i there
    exact Participant.isInOrder_cycle.mono fun _ => (List.getElem?_eq_some_iff.1 there).1
  · exact (rfl : (none : Option Role) = none)

theorem isInOrder_releaseOf {i : Nat} {role : Role} {guarded : Prop} :
    (s.releaseOf i role).IsInOrder guarded none := by
  unfold releaseOf
  split
  · exact Participant.isInOrder_release
  · exact (rfl : (none : Option Role) = none)

theorem leaves_pollOperating {run : Running Answer} {queue : List (Nat × Operation Answer)}
    {start : Nat} {ending : Ending} (holds : s.Holds run.cycle?) (order : run.IsInOrder s)
    (later : ∀ next ∈ queue, next.2.IsInOrder (next.1 < s.replicas.length) none) :
    s.Leaves run.cycle? (s.pollOperating run queue start ending).1
      (s.pollOperating run queue start ending).2 := by
  have carries := swaps_resume holds order
  have later' : ∀ next ∈ queue,
      next.2.IsInOrder (next.1 < (s.resume run).1.replicas.length) none := by
    rw [carries.swaps.length]
    exact later
  unfold pollOperating
  generalize s.resume run = went at carries later' ⊢
  obtain ⟨t, progress⟩ := went
  cases progress with
  | waiting millis rest => exact leaves_of_rest rfl carries.swaps ⟨carries.order _ rfl, later'⟩
  | crashed => exact leaves_of_ended rfl carries.swaps
  | ended answer =>
    cases queue with
    | cons next queue =>
      refine leaves_of_rest rfl carries.swaps ⟨?_, fun other h => ?_⟩
      · exact later' next List.mem_cons_self
      · exact later' other (List.mem_cons_of_mem _ h)
    | nil => cases ending <;> exact leaves_of_ended rfl carries.swaps

theorem leaves_pollReleasing {run : Running Unit} {deadline start : Nat}
    (holds : s.Holds run.cycle?) (order : run.IsInOrder s) :
    s.Leaves run.cycle? (s.pollReleasing run deadline start).1
      (s.pollReleasing run deadline start).2 := by
  have carries := swaps_resume holds order
  unfold pollReleasing
  generalize s.resume run = went at carries ⊢
  obtain ⟨t, progress⟩ := went
  cases progress with
  | ended answer => exact leaves_of_ended rfl carries.swaps
  | crashed => exact leaves_of_ended rfl carries.swaps
  | waiting millis rest =>
    simp only
    split
    · exact leaves_of_ended rfl (carries.swaps.trans (swaps_abandon carries.swaps.holds))
    · exact leaves_of_rest rfl carries.swaps (carries.order _ rfl)

theorem leaves_pollCycle {c : Controller} {stopping : Bool} {ticker : Ticker}
    {run : Running Unit} (holds : s.Holds run.cycle?) (order : run.IsInOrder s) :
    s.Leaves run.cycle? (s.pollCycle c stopping ticker run).1
      (s.pollCycle c stopping ticker run).2 := by
  have carries := swaps_resume holds order
  unfold pollCycle
  generalize s.resume run = went at carries ⊢
  obtain ⟨t, progress⟩ := went
  cases progress with
  | ended answer => exact leaves_of_rest rfl carries.swaps trivial
  | crashed => exact leaves_of_ended rfl carries.swaps
  | waiting millis rest => exact leaves_of_rest rfl carries.swaps (carries.order _ rfl)

theorem leaves_pollController {c : Controller} {stopping : Bool} {phase : Phase}
    (holds : s.Holds (Activity.controlling c stopping phase).cycle?)
    (order : (Activity.controlling c stopping phase).IsInOrder s) :
    s.Leaves (Activity.controlling c stopping phase).cycle?
      (s.pollController c stopping phase).1 (s.pollController c stopping phase).2 := by
  have kept := Swaps.refl holds
  cases phase with
  | cycling ticker deadline run =>
    simp only [pollController]
    split
    · exact leaves_of_rest rfl kept order
    · exact leaves_pollCycle holds order
  | created delay =>
    simp only [pollController]
    split
    · exact leaves_of_ended rfl kept
    · exact leaves_of_rest rfl kept trivial
  | delaying deadline =>
    simp only [pollController]
    split
    · exact leaves_of_ended rfl kept
    · split
      · exact leaves_of_rest rfl kept trivial
      · split
        · exact leaves_of_ended rfl kept
        · exact leaves_of_rest rfl kept trivial
  | between ticker =>
    simp only [pollController]
    split
    · exact leaves_of_ended rfl kept
    · split
      · have order : (Running.start c.replica (s.cycleOf c.replica c.role)).IsInOrder s :=
          isInOrder_cycleOf
        exact leaves_pollCycle (.none s) order
      · exact leaves_of_rest rfl kept trivial

/-- **Whatever a task does leaves the guards in order.** -/
theorem leaves_poll (alive : Nat → Bool) (number : Nat) {a : Activity} (holds : s.Holds a.cycle?)
    (order : a.IsInOrder s) :
    s.Leaves a.cycle? (s.poll alive number a).1 (s.poll alive number a).2 := by
  have kept := Swaps.refl holds
  cases a with
  | operating =>
    simp only [poll]
    split
    · exact leaves_of_rest rfl kept order
    · exact leaves_pollOperating holds order.1 order.2
  | sleeping =>
    simp only [poll]
    split
    · exact leaves_of_rest rfl kept trivial
    · exact leaves_of_ended rfl kept
  | awaiting replica gate wait limit deadline start =>
    have turned : ∀ {f : Replica → Replica}, (∀ r, (f r).guards = r.guards) →
        s.Swaps none (s.modifyReplica replica f) none := by
      intro f keeps
      exact .of_isTaken holds length_modifyReplica fun _ => isTaken_modifyReplica keeps
    simp only [poll, pollAwaiting]
    split
    · exact leaves_of_ended rfl (turned fun _ => rfl)
    · split
      · exact leaves_of_ended rfl (turned fun _ => rfl)
      · exact leaves_of_rest rfl (turned fun _ => rfl) trivial
  | joining task c grace deadline start =>
    have releases : s.Leaves none s (.again (.releasing s.elapsed
        (.start c.replica (s.releaseOf c.replica c.role)) (s.elapsed + grace) start)) :=
      leaves_of_rest rfl kept isInOrder_releaseOf
    simp only [poll]
    split
    · exact releases
    · split
      · exact leaves_of_rest rfl releases.swaps (releases.order _ rfl)
      · exact leaves_of_rest rfl kept trivial
  | releasing next run deadline start =>
    simp only [poll]
    split
    · exact leaves_pollReleasing holds order
    · split
      · exact leaves_of_ended rfl (swaps_abandon holds)
      · exact leaves_of_rest rfl kept order
  | controlling => exact leaves_pollController holds order
  | dropped => exact leaves_of_ended rfl (swaps_abandon holds)

end Scene

end LeasePool
