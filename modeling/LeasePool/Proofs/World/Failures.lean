import LeasePool.Proofs.Pool.Requests
import LeasePool.Proofs.World.Alone

/-!
# Operations of which calls fail

An operation that nobody disturbs, except that some of its calls to the store fail. A call that
fails is replied to with an error, and the store does not see it. The calls are numbered, so any
pattern of failures can be told beforehand, and so can the calls that belong to a part of an
operation.
-/

namespace LeasePool

/-! ## Patterns of failures -/

/-- Which calls fail, by their numbers, and the errors that they fail with. -/
abbrev Failures : Type := Nat → Option PoolError

namespace Failures

/-- No call from number `m` up to `n`, exclusively, fails. -/
def Spare (failing : Failures) (m n : Nat) : Prop :=
  ∀ k, m ≤ k → k < n → failing k = none

variable {failing : Failures} {k m n : Nat}

instance : Decidable (failing.Spare m n) :=
  decidable_of_iff (∀ k, k < n → m ≤ k → failing k = none)
    ⟨fun spare k h h' => spare k h' h, fun spare k h h' => spare k h' h⟩

theorem spare_self : failing.Spare n n := fun _ h h' => absurd h' (Nat.not_lt.2 h)

theorem spare_trans_iff (h : m ≤ k) (h' : k ≤ n) :
    failing.Spare m n ↔ failing.Spare m k ∧ failing.Spare k n := by
  constructor
  · intro spare
    exact ⟨fun l hl hl' => spare l hl (by omega), fun l hl hl' => spare l (by omega) hl'⟩
  · rintro ⟨before, after⟩ l hl hl'
    rcases Nat.lt_or_ge l k with early | late
    · exact before l hl early
    · exact after l late hl'

/-- What comes after calls that get through decides. -/
theorem Spare.iff (before : failing.Spare m k) (h : m ≤ k) (h' : k ≤ n) :
    failing.Spare m n ↔ failing.Spare k n := by
  rw [spare_trans_iff h h', and_iff_right before]

theorem spare_succ (h : failing n = none) : failing.Spare n (n + 1) := by
  intro l hl hl'
  obtain rfl : l = n := by omega
  exact h

/-- What a call that fails spoils. -/
theorem not_spare {e : PoolError} (h : failing n = some e) (h' : n < m) : ¬ failing.Spare n m := by
  intro spare
  rw [spare n (Nat.le_refl n) h'] at h
  contradiction

end Failures

/-! ## How operations go -/

/-- How an operation has gone. -/
structure Course (α : Type) where
  scene : Scene
  /-- The number of the next call. -/
  calls : Nat
  /-- The result, unless the operation could not go on. -/
  result? : Option α

namespace Scene

/-- How an operation of a process goes, with calls that are numbered from `n` on and of which
some fail. -/
def course {α : Type} (i : Nat) (failing : Failures) : (n : Nat) → Operation α → Scene → Course α
  | n, .done a, s => ⟨s, n, some a⟩
  | n, .crash, s => ⟨s, n, none⟩
  | n, .ask q next, s =>
    match s.ask i q with
    | some (answer, s) => course i failing n (next answer) s
    | none => ⟨s, n, none⟩
  | n, .call c next, s =>
    match failing n with
    | some e => course i failing (n + 1) (next (.error e)) s
    | none =>
      course i failing (n + 1) (next (s.store.answer c).2) { s with store := (s.store.answer c).1 }

section

variable {α β : Type} {i n : Nat} {failing : Failures} {s : Scene}

theorem course_of_ask {q : Query} {next : q.Answer → Operation α} :
    s.course i failing n (.ask q next) =
      match s.ask i q with
      | some (answer, s) => s.course i failing n (next answer)
      | none => ⟨s, n, none⟩ := by
  rw [course]

theorem course_of_call {c : StoreCall} {next : c.Reply → Operation α} :
    s.course i failing n (.call c next) =
      match failing n with
      | some e => s.course i failing (n + 1) (next (.error e))
      | none => course i failing (n + 1) (next (s.store.answer c).2)
          { s with store := (s.store.answer c).1 } := by
  rw [course]

theorem le_calls {x : Operation α} : n ≤ (s.course i failing n x).calls := by
  induction x generalizing n s with
  | done a => exact Nat.le_refl n
  | crash => exact Nat.le_refl n
  | ask q next ih =>
    simp only [course_of_ask]
    split
    · exact ih _
    · exact Nat.le_refl n
  | call c next ih =>
    simp only [course_of_call]
    split
    · exact Nat.le_of_succ_le (ih _)
    · exact Nat.le_of_succ_le (ih _)

/-- **What every request to a store keeps is kept by an operation.** -/
theorem store_course {P : MemoryStore → Prop} {x : Operation α}
    (keep : ∀ store c, P store → P (MemoryStore.answer store c).1) (H : P s.store) :
    P (s.course i failing n x).scene.store := by
  induction x generalizing n s with
  | done a => exact H
  | crash => exact H
  | ask q next ih =>
    simp only [course_of_ask]
    split
    · rename_i asked
      exact ih _ ((frame_ask asked).store ▸ H)
    · exact H
  | call c next ih =>
    simp only [course_of_call]
    split
    · exact ih _ H
    · exact ih _ (keep _ _ H)

/-- A store stays sound. -/
theorem isSound_course {x : Operation α} (sound : s.store.IsSound) :
    (s.course i failing n x).scene.store.IsSound :=
  store_course (fun _ c H => MemoryStore.IsSound.answer H c) sound

/-- A store is not switched off. -/
theorem online_course {x : Operation α} (online : s.store.offline = false) :
    (s.course i failing n x).scene.store.offline = false :=
  @store_course _ _ _ _ _ (fun store => store.offline = false) x
    (fun _ _ H => MemoryStore.offline_answer.trans H) online

/-- No lease is deleted. -/
theorem isSome_course {x : Operation α} {k : LeaseKey} (there : (s.store.leases.get? k).isSome) :
    ((s.course i failing n x).scene.store.leases.get? k).isSome := by
  refine @store_course _ _ _ _ _ (fun store => (store.leases.get? k).isSome) x ?_ there
  intro store c H
  cases wrote : c.stored? (store.answer c).2 with
  | none => rwa [MemoryStore.answer_of_not_stored wrote]
  | some l =>
    rcases MemoryStore.stored?_answer wrote with ⟨a, -, -, -, same⟩ | ⟨a, b, -, -, -, -, same⟩ <;>
    · rw [same, MemoryStore.get?_write]
      split
      · rfl
      · exact H

/-- What comes after an operation with a result goes on from where the operation has ended. -/
theorem course_bind_of_some {x : Operation α} {f : α → Operation β} {a : α}
    (h : (s.course i failing n x).result? = some a) :
    s.course i failing n (x.bind f) =
      (s.course i failing n x).scene.course i failing (s.course i failing n x).calls (f a) := by
  induction x generalizing n s with
  | done b =>
    obtain rfl := Option.some.inj h
    rfl
  | crash => contradiction
  | ask q next ih =>
    simp only [course_of_ask, Operation.ask_bind] at h ⊢
    split at h
    · exact ih _ h
    · contradiction
  | call c next ih =>
    simp only [course_of_call, Operation.call_bind] at h ⊢
    split at h
    · exact ih _ h
    · exact ih _ h

/-- What cannot go on is not gone on with. -/
theorem course_bind_of_none {x : Operation α} {f : α → Operation β}
    (h : (s.course i failing n x).result? = none) :
    s.course i failing n (x.bind f) =
      ⟨(s.course i failing n x).scene, (s.course i failing n x).calls, none⟩ := by
  induction x generalizing n s with
  | done a => contradiction
  | crash => rfl
  | ask q next ih =>
    simp only [course_of_ask, Operation.ask_bind] at h ⊢
    split at h
    · exact ih _ h
    · rfl
  | call c next ih =>
    simp only [course_of_call, Operation.call_bind] at h ⊢
    split at h
    · exact ih _ h
    · exact ih _ h

/-! ### Attempts, one step at a time -/

theorem course_then_of_ok {x : Attempt α} {f : α → Attempt β} {a : α}
    (h : (s.course i failing n x.run).result? = some (.ok a)) :
    s.course i failing n (x >>= f).run = (s.course i failing n x.run).scene.course i failing
      (s.course i failing n x.run).calls (f a).run :=
  course_bind_of_some (x := x.run) h

theorem course_then_of_error {x : Attempt α} {f : α → Attempt β} {e : PoolError}
    (h : (s.course i failing n x.run).result? = some (.error e)) :
    s.course i failing n (x >>= f).run =
      ⟨(s.course i failing n x.run).scene, (s.course i failing n x.run).calls,
        some (.error e)⟩ :=
  course_bind_of_some (x := x.run) h

theorem course_then_of_none {x : Attempt α} {f : α → Attempt β}
    (h : (s.course i failing n x.run).result? = none) :
    s.course i failing n (x >>= f).run =
      ⟨(s.course i failing n x.run).scene, (s.course i failing n x.run).calls, none⟩ :=
  course_bind_of_none (x := x.run) h

/-- An attempt whose errors are answers, too, is gone on with. -/
theorem course_outcome {x : Attempt α} {f : Except PoolError α → Attempt β}
    {result : Except PoolError α} (h : (s.course i failing n x.run).result? = some result) :
    s.course i failing n (Attempt.outcome x >>= f).run =
      (s.course i failing n x.run).scene.course i failing
        (s.course i failing n x.run).calls (f result).run := by
  have kept : s.course i failing n (Attempt.outcome x).run = _ := course_bind_of_some h
  have ended := congrArg Course.result? kept
  rw [course_then_of_ok ended, kept]
  rfl

theorem course_ask {q : Query} {f : q.Answer → Attempt β} {a : q.Answer} {t : Scene}
    (asked : s.ask i q = some (a, t)) :
    s.course i failing n (Attempt.ask q >>= f).run = t.course i failing n (f a).run := by
  change s.course i failing n (.ask q fun answer => (f answer).run) = _
  simp only [course_of_ask, asked]

theorem course_now {f : Instant → Attempt β} {t : Instant} (now : s.now? = some t) :
    s.course i failing n (Attempt.ask .now >>= f).run = s.course i failing n (f t).run :=
  course_ask (by simp [ask, now])

theorem course_orCrash {a : α} {f : α → Attempt β} :
    s.course i failing n (Attempt.orCrash (some a) >>= f).run =
      s.course i failing n (f a).run :=
  rfl

section

variable {c : StoreCall} {store : MemoryStore} {e : PoolError}

theorem course_reply {f : c.Reply → Attempt β} {reply : c.Reply} (through : failing n = none)
    (answer : s.store.answer c = (store, reply)) :
    s.course i failing n (Attempt.reply c >>= f).run =
      course i failing (n + 1) (f reply).run { s with store } := by
  change s.course i failing n (.call c fun reply => (f reply).run) = _
  simp only [course_of_call, through, answer]

theorem course_reply_of_failing {f : c.Reply → Attempt β} (fails : failing n = some e) :
    s.course i failing n (Attempt.reply c >>= f).run =
      s.course i failing (n + 1) (f (.error e)).run := by
  change s.course i failing n (.call c fun reply => (f reply).run) = _
  simp only [course_of_call, fails]

theorem course_call {f : c.Answer → Attempt β} {a : c.Answer} (through : failing n = none)
    (answer : s.store.answer c = (store, .ok a)) :
    s.course i failing n (Attempt.call c >>= f).run =
      course i failing (n + 1) (f a).run { s with store } := by
  change s.course i failing n (.call c fun reply => (Operation.done reply).bind _) = _
  simp only [course_of_call, through, answer]
  rfl

theorem course_call_of_failing {f : c.Answer → Attempt β} (fails : failing n = some e) :
    s.course i failing n (Attempt.call c >>= f).run = ⟨s, n + 1, some (.error e)⟩ := by
  change s.course i failing n (.call c fun reply => (Operation.done reply).bind _) = _
  simp only [course_of_call, fails]
  rfl

theorem course_call_of_error {f : c.Answer → Attempt β} (through : failing n = none)
    (answer : s.store.answer c = (store, .error e)) :
    s.course i failing n (Attempt.call c >>= f).run =
      ⟨{ s with store }, n + 1, some (.error e)⟩ := by
  change s.course i failing n (.call c fun reply => (Operation.done reply).bind _) = _
  simp only [course_of_call, through, answer]
  rfl

end

/-! ### Attempts that succeed, taken apart -/

/-- The first part of an attempt that succeeds has succeeded. -/
theorem exists_ok_of_course_then {x : Attempt α} {f : α → Attempt β} {b : β}
    (h : (s.course i failing n (x >>= f).run).result? = some (.ok b)) :
    ∃ a, (s.course i failing n x.run).result? = some (.ok a) := by
  cases first : (s.course i failing n x.run).result? with
  | none =>
    rw [course_then_of_none first] at h
    contradiction
  | some result =>
    cases result with
    | ok a => exact ⟨a, rfl⟩
    | error e =>
      rw [course_then_of_error first] at h
      simp at h

/-- A call of an attempt that succeeds has got through and was answered. -/
theorem exists_answer_of_course {c : StoreCall} {f : c.Answer → Attempt β} {b : β}
    (h : (s.course i failing n (Attempt.call c >>= f).run).result? = some (.ok b)) :
    failing n = none ∧ ∃ a, (s.store.answer c).2 = .ok a := by
  cases fails : failing n with
  | some e =>
    rw [course_call_of_failing fails] at h
    simp at h
  | none =>
    refine ⟨rfl, ?_⟩
    cases replied : (s.store.answer c).2 with
    | ok a => exact ⟨a, rfl⟩
    | error e =>
      rw [course_call_of_error fails (Prod.ext rfl replied)] at h
      simp at h

/-! ### Running operations under faults -/

/-- Only the calls from number `n` on matter. -/
theorem course_congr {failing' : Failures} {x : Operation α}
    (same : ∀ k, n ≤ k → failing k = failing' k) :
    s.course i failing n x = s.course i failing' n x := by
  induction x generalizing n s with
  | done a => rfl
  | crash => rfl
  | ask q next ih =>
    simp only [course_of_ask]
    split
    · exact ih _ same
    · rfl
  | call c next ih =>
    simp only [course_of_call, same n (Nat.le_refl n)]
    split
    · exact ih _ fun k hk => same k (Nat.le_of_succ_le hk)
    · exact ih _ fun k hk => same k (Nat.le_of_succ_le hk)

/-- Without faults, an operation that begins and ends no cycle runs as it goes when every call gets
through. -/
theorem run_of_course {x : Operation α} (inside : Option Role) (quiet : s.faults = [])
    (through : ∀ k, failing k = none) (asks : x.Asks Query.IsOfWork) :
    s.run i inside x =
      match s.course i failing n x with
      | ⟨t, _, some a⟩ => (t, .ended a)
      | ⟨t, _, none⟩ => (t.abandon i inside, .crashed) := by
  induction x generalizing s n with
  | done b => rfl
  | crash => rfl
  | ask q next ih =>
    simp only [course_of_ask, run]
    cases asked : s.ask i q with
    | none => rfl
    | some reply =>
      obtain ⟨answer, t⟩ := reply
      have same : q.inside inside answer = inside := by
        cases q with
        | enter | leave => exact asks.1.elim
        | _ => rfl
      simp only [same]
      exact ih answer ((faults_ask asked).trans quiet) (asks.2 answer)
  | call c next ih =>
    simp only [course_of_call, through n, run, call_of_quiet quiet]
    exact ih _ quiet (asks _)

/-- All that the faults do is to reply to calls with errors, before the store sees them. -/
def Refuses (faults : List Fault) : Prop :=
  ∀ f ∈ faults, f.late = false ∧ ∀ a ∈ f.acts, ∃ reply, a = .fail reply

/-- The scene with other faults. -/
def armed (s : Scene) (faults : List Fault) : Scene := { s with faults }

/-- Answers have nothing to do with faults. -/
theorem ask_armed {q : Query} {faults : List Fault} :
    (s.armed faults).ask i q = (s.ask i q).map fun x => (x.1, x.2.armed faults) := by
  cases q with
  | now =>
    have same : (s.armed faults).now? = s.now? := rfl
    simp only [ask, same, Option.map_map]
    rfl
  | announce kind lease =>
    simp only [ask, announce, armed, Option.map_some]
    split <;> rfl
  | knownDeployment | setKnownDeployment | heldLease | enter | leave => rfl

/-- Under faults that refuse, a call fails or is put to the store. -/
theorem call_of_refuses {c : StoreCall} {faults : List Fault} (refusing : Refuses faults) :
    ∃ faults', Refuses faults' ∧
      ((∃ e, (s.armed faults).call c = (s.armed faults', .replied (.error e))) ∨
        (s.armed faults).call c =
          (armed { s with store := (s.store.answer c).1 } faults',
            .replied (s.store.answer c).2)) := by
  refine ⟨faults.map (·.counted c), ?_, ?_⟩
  · intro f' hf'
    obtain ⟨f, hf, rfl⟩ := List.mem_map.1 hf'
    simp only [Fault.counted]
    split
    · exact refusing f hf
    · split
      · exact refusing f hf
      · exact refusing f hf
  · have early : ∀ a ∈ (Fault.due faults c).1, ∃ reply, a = .fail reply := by
      intro a ha
      obtain ⟨f, hf, here⟩ := List.mem_flatMap.1 ha
      exact (refusing f (List.mem_filter.1 (List.mem_filter.1 hf).1).1).2 a here
    have late : (Fault.due faults c).2 = [] := by
      refine List.flatMap_eq_nil_iff.2 fun f hf => ?_
      obtain ⟨acting, late⟩ := List.mem_filter.1 hf
      rw [(refusing f (List.mem_filter.1 acting).1).1] at late
      contradiction
    simp only [call, armed, late]
    cases acts : (Fault.due faults c).1 with
    | nil => exact .inr rfl
    | cons a rest =>
      obtain ⟨reply, rfl⟩ := early a (acts ▸ List.mem_cons_self)
      exact .inl ⟨_, rfl⟩

/-- **Where faults only make calls fail**, an operation runs as it goes under some pattern of
failures. -/
theorem exists_course_of_run {x : Operation α} {faults : List Fault} (refusing : Refuses faults)
    (n : Nat) (inside : Option Role) :
    ∃ failing : Failures,
      (run i inside x (s.armed faults)).2 =
        (s.course i failing n x).result?.elim .crashed .ended ∧
      (run i inside x (s.armed faults)).1.store = (s.course i failing n x).scene.store := by
  induction x generalizing s faults n inside with
  | done a => exact ⟨fun _ => none, rfl, rfl⟩
  | crash => exact ⟨fun _ => none, rfl, frame_abandon.store⟩
  | ask q next ih =>
    simp only [run, course_of_ask, ask_armed]
    cases asked : s.ask i q with
    | none => exact ⟨fun _ => none, rfl, frame_abandon.store⟩
    | some reply =>
      obtain ⟨answer, t⟩ := reply
      exact ih answer refusing n _
  | call c next ih =>
    obtain ⟨faults', refusing', ⟨e, fails⟩ | through⟩ := call_of_refuses refusing
    · obtain ⟨later, result, store⟩ := ih (.error e) (s := s) refusing' (n + 1) inside
      refine ⟨fun k => if k = n then some e else later k, ?_⟩
      have rest : s.course i (fun k => if k = n then some e else later k) (n + 1)
          (next (.error e)) = s.course i later (n + 1) (next (.error e)) :=
        course_congr fun k hk => if_neg (by omega)
      simp only [course_of_call, if_pos, rest]
      rw [run, fails]
      exact ⟨result, store⟩
    · obtain ⟨later, result, store⟩ := ih (s.store.answer c).2
        (s := { s with store := (s.store.answer c).1 }) refusing' (n + 1) inside
      refine ⟨fun k => if k = n then none else later k, ?_⟩
      have rest : course i (fun k => if k = n then none else later k) (n + 1)
          (next (s.store.answer c).2) { s with store := (s.store.answer c).1 } =
            course i later (n + 1) (next (s.store.answer c).2)
              { s with store := (s.store.answer c).1 } :=
        course_congr fun k hk => if_neg (by omega)
      simp only [course_of_call, if_pos, rest]
      rw [run, through]
      exact ⟨result, store⟩

end

end Scene

end LeasePool
