import LeasePool.Proofs.World.Alone

/-!
# Operations in conversation with a counterpart

An operation is a conversation: it calls, and somebody replies. Who replies, and with what, and
what everybody else does in the meantime, is up to a counterpart that may be anything. It may
refuse calls, or never reply; it may be a store in memory with others at work in it, or a server
behind a network.
-/

namespace LeasePool

/-- What becomes of a call that is replied to. -/
structure Service (c : StoreCall) where
  reply : c.Reply
  /-- The scene right after the store has decided on the reply. -/
  decided : Scene
  /-- The scene in which the caller goes on. -/
  scene : Scene

/-- Whoever replies to the calls of a process, given the number of the call and the scene in which
it is made. A call that nothing comes of is never replied to. -/
abbrev Counterpart : Type := Nat → Scene → (c : StoreCall) → Option (Service c)

/-- A call and what has become of it. -/
structure Round where
  call : StoreCall
  service : Service call

/-- The lease that was stored. -/
def Round.stored? (r : Round) : Option Lease := r.call.stored? r.service.reply

/-- How an operation has gone. -/
structure Conversation (α : Type) where
  scene : Scene
  /-- All calls that were replied to, in their order. -/
  rounds : List Round
  /-- The result, unless the operation could not go on. -/
  result? : Option α

/-- The conversation with some rounds before it. -/
def Conversation.since {α : Type} (k : Conversation α) (before : List Round) : Conversation α :=
  { k with rounds := before ++ k.rounds }

namespace Conversation

variable {α : Type} {k : Conversation α} {before : List Round}

@[simp] theorem scene_since : (k.since before).scene = k.scene := rfl
@[simp] theorem result?_since : (k.since before).result? = k.result? := rfl
@[simp] theorem rounds_since : (k.since before).rounds = before ++ k.rounds := rfl

end Conversation

namespace Scene

/-- How an operation of a process goes whose calls, numbered from `n` on, somebody replies to. -/
def converse {α : Type} (i : Nat) (w : Counterpart) :
    (n : Nat) → Operation α → Scene → Conversation α
  | _, .done a, s => ⟨s, [], some a⟩
  | _, .crash, s => ⟨s, [], none⟩
  | n, .ask q next, s =>
    match s.ask i q with
    | some (answer, s) => converse i w n (next answer) s
    | none => ⟨s, [], none⟩
  | n, .call c next, s =>
    match w n s c with
    | some x => (converse i w (n + 1) (next x.reply) x.scene).since [⟨c, x⟩]
    | none => ⟨s, [], none⟩

variable {α β : Type} {i n : Nat} {w : Counterpart} {s : Scene}

theorem converse_of_ask {q : Query} {next : q.Answer → Operation α} :
    s.converse i w n (.ask q next) =
      match s.ask i q with
      | some (answer, s) => s.converse i w n (next answer)
      | none => ⟨s, [], none⟩ := by
  rw [converse]

theorem converse_of_call {c : StoreCall} {next : c.Reply → Operation α} :
    s.converse i w n (.call c next) =
      match w n s c with
      | some x => (x.scene.converse i w (n + 1) (next x.reply)).since [⟨c, x⟩]
      | none => ⟨s, [], none⟩ := by
  rw [converse]

/-- **A conversation goes on where the one before has ended**, if that has a result. -/
theorem converse_bind {x : Operation α} {f : α → Operation β} :
    s.converse i w n (x.bind f) =
      match s.converse i w n x with
      | ⟨s', rounds, some a⟩ => (s'.converse i w (n + rounds.length) (f a)).since rounds
      | ⟨s', rounds, none⟩ => ⟨s', rounds, none⟩ := by
  induction x generalizing n s with
  | done a => rfl
  | crash => rfl
  | ask q next ih =>
    simp only [Operation.ask_bind, converse_of_ask]
    split
    · exact ih _
    · rfl
  | call c next ih =>
    simp only [Operation.call_bind, converse_of_call]
    split
    · rename_i x _
      rw [ih]
      rcases x.scene.converse i w (n + 1) (next x.reply) with ⟨s', rounds, _ | a⟩
      · rfl
      · have number : n + 1 + rounds.length = n + (rounds.length + 1) := by omega
        simp only [Conversation.since, List.length_cons, number, List.cons_append,
          List.nil_append]
    · rfl

end Scene

/-! ## Attempts, one step at a time -/

namespace Scene

variable {α β : Type} {i n : Nat} {w : Counterpart} {s : Scene} {c : StoreCall}

theorem converse_reply {f : c.Reply → Attempt β} :
    s.converse i w n (Attempt.reply c >>= f).run =
      match w n s c with
      | some x => (x.scene.converse i w (n + 1) (f x.reply).run).since [⟨c, x⟩]
      | none => ⟨s, [], none⟩ :=
  converse_of_call

theorem converse_call {f : c.Answer → Attempt β} :
    s.converse i w n (Attempt.call c >>= f).run =
      match w n s c with
      | some x =>
        match x.reply with
        | .ok a => (x.scene.converse i w (n + 1) (f a).run).since [⟨c, x⟩]
        | .error e => ⟨x.scene, [⟨c, x⟩], some (.error e)⟩
      | none => ⟨s, [], none⟩ := by
  change s.converse i w n (.call c fun reply => (Operation.done reply).bind _) = _
  rw [converse_of_call]
  cases w n s c with
  | none => rfl
  | some x => rcases x with ⟨_ | a, decided, after⟩ <;> rfl

theorem converse_ask {q : Query} {f : q.Answer → Attempt β} :
    s.converse i w n (Attempt.ask q >>= f).run =
      match s.ask i q with
      | some (answer, s) => s.converse i w n (f answer).run
      | none => ⟨s, [], none⟩ :=
  converse_of_ask

theorem converse_now {f : Instant → Attempt β} :
    s.converse i w n (Attempt.ask .now >>= f).run =
      match s.now? with
      | some t => s.converse i w n (f t).run
      | none => ⟨s, [], none⟩ := by
  rw [converse_ask, ask]
  cases s.now? <;> rfl

theorem converse_orCrash {o : Option α} {f : α → Attempt β} :
    s.converse i w n (Attempt.orCrash o >>= f).run =
      match o with
      | some a => s.converse i w n (f a).run
      | none => ⟨s, [], none⟩ := by
  cases o <;> rfl

/-- Attempts go on only with what succeeds. -/
theorem converse_then {x : Attempt α} {f : α → Attempt β} :
    s.converse i w n (x >>= f).run =
      match s.converse i w n x.run with
      | ⟨s', rounds, some (.ok a)⟩ => (s'.converse i w (n + rounds.length) (f a).run).since rounds
      | ⟨s', rounds, some (.error e)⟩ => ⟨s', rounds, some (.error e)⟩
      | ⟨s', rounds, none⟩ => ⟨s', rounds, none⟩ := by
  refine (converse_bind (x := x.run)).trans ?_
  rcases s.converse i w n x.run with ⟨s', rounds, _ | _ | a⟩
  · rfl
  · exact congrArg (fun rounds => Conversation.mk s' rounds _) (List.append_nil rounds)
  · rfl

end Scene

/-! ## Guarantees -/

/-- Whatever the process is told and whoever replies, `Q` holds of the rounds and of the result, as
long as `P` holds of all rounds. -/
def Operation.Guarantees {α : Type} (P : Round → Prop) :
    (Q : List Round → Option α → Prop) → Operation α → Prop
  | Q, .done a => Q [] (some a)
  | Q, .crash => Q [] none
  | Q, .ask q next => Q [] none ∧ ∀ answer : q.Answer, (next answer).Guarantees P Q
  | Q, .call c next => Q [] none ∧ ∀ x : Service c, P ⟨c, x⟩ →
    (next x.reply).Guarantees P fun rounds => Q (⟨c, x⟩ :: rounds)

namespace Operation

variable {α β : Type} {P : Round → Prop} {Q R : List Round → Option α → Prop}

theorem Guarantees.mono {x : Operation α} (H : x.Guarantees P Q)
    (h : ∀ rounds o, Q rounds o → R rounds o) : x.Guarantees P R := by
  induction x generalizing Q R with
  | done a => exact h _ _ H
  | crash => exact h _ _ H
  | ask q next ih => exact ⟨h _ _ H.1, fun answer => ih answer (H.2 answer) h⟩
  | call c next ih => exact ⟨h _ _ H.1, fun x hx => ih _ (H.2 x hx) fun _ _ => h _ _⟩

/-- Whoever converses with a counterpart, and whenever, `Q` holds of the rounds and of the
result. -/
def Ends (w : Counterpart) (Q : List Round → Option α → Prop) (x : Operation α) : Prop :=
  ∀ i n s, Q (Scene.converse i w n x s).rounds (Scene.converse i w n x s).result?

/-- **What is guaranteed holds of every conversation** whose counterpart keeps to `P`. -/
theorem Guarantees.ends {x : Operation α} {w : Counterpart} (H : x.Guarantees P Q)
    (keeps : ∀ n s c x, w n s c = some x → P ⟨c, x⟩) : x.Ends w Q := by
  intro i n s
  induction x generalizing n s Q with
  | done a => exact H
  | crash => exact H
  | ask q next ih =>
    rw [Scene.converse_of_ask]
    split
    · exact ih _ (H.2 _) _ _
    · exact H.1
  | call c next ih =>
    rw [Scene.converse_of_call]
    split
    · rename_i x hx
      exact ih _ (H.2 x (keeps n s c x hx)) _ _
    · exact H.1

/-- What comes after an operation with a result adds its rounds. -/
theorem guarantees_bind {x : Operation α} {f : α → Operation β}
    {Q : List Round → Option β → Prop}
    (H : x.Guarantees P fun rounds o => match o with
      | some a => (f a).Guarantees P fun more => Q (rounds ++ more)
      | none => Q rounds none) : (x.bind f).Guarantees P Q := by
  induction x generalizing Q with
  | done a => exact H
  | crash => exact H
  | ask q next ih => exact ⟨H.1, fun answer => ih answer (H.2 answer)⟩
  | call c next ih => exact ⟨H.1, fun x hx => ih _ (H.2 x hx)⟩

end Operation

namespace Attempt

variable {α β : Type} {P : Round → Prop} {Q : List Round → Option (Except PoolError β) → Prop}
  {c : StoreCall}

theorem guarantees_then {x : Attempt α} {f : α → Attempt β}
    (H : x.run.Guarantees P fun rounds (o : Option (Except PoolError α)) => match o with
      | some (.ok a) => (f a).run.Guarantees P fun more => Q (rounds ++ more)
      | some (.error e) => Q rounds (some (.error e))
      | none => Q rounds none) : (x >>= f).run.Guarantees P Q := by
  refine Operation.guarantees_bind (x := x.run) (H.mono fun rounds o h => ?_)
  rcases o with _ | e | a
  · exact h
  · change Q (rounds ++ []) (some (.error e))
    rw [List.append_nil]
    exact h
  · exact h

theorem guarantees_call {f : c.Answer → Attempt β} (stuck : Q [] none)
    (H : ∀ x : Service c, P ⟨c, x⟩ → match x.reply with
      | .ok a => (f a).run.Guarantees P fun rounds => Q (⟨c, x⟩ :: rounds)
      | .error e => Q [⟨c, x⟩] (some (.error e))) : (call c >>= f).run.Guarantees P Q := by
  refine ⟨stuck, fun x hx => ?_⟩
  have H := H x hx
  rcases x with ⟨_ | a, decided, after⟩ <;> exact H

theorem guarantees_reply {f : c.Reply → Attempt β} (stuck : Q [] none)
    (H : ∀ x : Service c, P ⟨c, x⟩ →
      (f x.reply).run.Guarantees P fun rounds => Q (⟨c, x⟩ :: rounds)) :
    (reply c >>= f).run.Guarantees P Q :=
  ⟨stuck, H⟩

theorem guarantees_ask {q : Query} {f : q.Answer → Attempt β} (stuck : Q [] none)
    (H : ∀ a, (f a).run.Guarantees P Q) : (ask q >>= f).run.Guarantees P Q :=
  ⟨stuck, H⟩

theorem guarantees_orCrash {o : Option α} {f : α → Attempt β} (stuck : Q [] none)
    (H : ∀ a, o = some a → (f a).run.Guarantees P Q) :
    (orCrash o >>= f).run.Guarantees P Q := by
  cases o with
  | none => exact stuck
  | some a => exact H a rfl

end Attempt

/-! ## Counterparts -/

/-- A store in memory some of whose calls fail, by their numbers, with others at work in it before
and after each call. A call that fails has no effect. -/
def Counterpart.ofStore (failing : Nat → StoreCall → Option PoolError)
    (before after : Nat → Scene → Scene) : Counterpart := fun n s c =>
  let s := before n s
  match failing n c with
  | some e => some { reply := .error e, decided := s, scene := after n s }
  | none =>
    let decided := { s with store := (s.store.answer c).1 }
    some { reply := (s.store.answer c).2, decided, scene := after n decided }

/-- The scene right after its store has decided on a call, before the faults do what is late. -/
def Scene.decided (s : Scene) (c : StoreCall) : Scene :=
  let decided : Scene × CallProgress c :=
    goEarly [] (Fault.due s.faults c).1 { s with faults := s.faults.map (·.counted c) }
  decided.1

/-- The store of the scene, behind the faults. A call that they hold up is not replied to. -/
def Counterpart.ofScene : Counterpart := fun _ s c =>
  match s.call c with
  | (scene, .replied reply) => some { reply, decided := s.decided c, scene }
  | (_, .crashed) | (_, .waiting ..) => none

/-- **A run that comes to its end is a conversation** with the store behind the faults. -/
theorem Scene.run_eq_ended_iff {α : Type} {i n : Nat} {inside : Option Role} {x : Operation α}
    {s s' : Scene} {a : α} :
    s.run i inside x = (s', .ended a) ↔
      (s.converse i .ofScene n x).result? = some a ∧ (s.converse i .ofScene n x).scene = s' := by
  induction x generalizing inside n s with
  | done b => simp [run, converse, and_comm]
  | crash => simp [run, converse]
  | ask q next ih =>
    rw [run, converse_of_ask]
    cases s.ask i q with
    | none => simp
    | some reply => exact ih _
  | call c next ih =>
    rw [run, converse_of_call, Counterpart.ofScene]
    rcases s.call c with ⟨t, reply | _ | _⟩
    · exact ih _
    · simp
    · simp

end LeasePool
