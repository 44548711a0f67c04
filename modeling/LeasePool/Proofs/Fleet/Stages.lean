import LeasePool.Proofs.Fleet.Others

/-!
# The stages of a member cycle

A member cycle has not begun yet, or it is at work inside its guard, or it is over. At work it
keeps to the terms of a member controller, and a move of its own brings it from one stage to the
next.
-/

namespace LeasePool

namespace Member

/-- The end of a cycle. -/
def leaving : Operation Answer := .ask (.leave .member) fun _ => .done .nothing

/-- What a participant does in a cycle of its member controller. -/
theorem operation_cycle {c : Participant} :
    (Job.cycle .member).operation c =
      if c.enabled.member = true then
        .ask (.enter .member) fun entered =>
          if entered = true then c.acquire.run.bind fun _ => leaving else .done .nothing
      else .done .nothing := by
  by_cases enabled : c.enabled.member = true
  · simp only [Job.operation, World.silent, Participant.cycle, PerRole.get, enabled, if_true,
      Operation.bind_eq_bind, Operation.ask_bind, Operation.done_bind]
    congr 1
    funext entered
    cases entered with
    | false => rfl
    | true => exact Operation.bind_assoc _ _ _
  · simp only [Job.operation, World.silent, Participant.cycle, PerRole.get, enabled]
    rfl

/-- How far a member cycle has come, and that it has kept to the terms so far. -/
inductive Stage (p : Pool) (c : Participant) (i n : Nat) (h : History) :
    Option Role → Operation Answer → Prop
  | before : Stage p c i n h none ((Job.cycle .member).operation c)
  | inside {x : Operation (Except PoolError Bool)}
    (meets : x.Meets (terms p c.pod i n (.cycle .member))
      (fun _ k => Finished p c.pod i n k) h) :
    Stage p c i n h (some .member) (x.bind fun _ => leaving)
  /-- It has left its guard, or it cannot go on. -/
  | after {role : Option Role} {rest : Operation Answer} (ended : rest.isUnderWay = false) :
    Stage p c i n h role rest

/-- Where a member cycle stands when it asks its process. -/
inductive Asking (p : Pool) (c : Participant) (i n : Nat) (h : History) :
    Option Role → (q : Query) → (q.Answer → Operation Answer) → Prop
  | entering : Asking p c i n h none (.enter .member) fun entered =>
      if entered = true then c.acquire.run.bind fun _ => leaving else .done .nothing
  | working {q : Query} {next : q.Answer → Operation (Except PoolError Bool)}
    (meets : (Operation.ask q next).Meets (terms p c.pod i n (.cycle .member))
      (fun _ k => Finished p c.pod i n k) h) :
    Asking p c i n h (some .member) q fun a => (next a).bind fun _ => leaving
  | leaving {r : Except PoolError Bool}
    (meets : (Operation.done r).Meets (terms p c.pod i n (.cycle .member))
      (fun _ k => Finished p c.pod i n k) h) :
    Asking p c i n h (some .member) (.leave .member) fun _ => .done .nothing

variable {p : Pool} {c : Participant} {i n : Nat} {h k : History} {role : Option Role}

namespace Stage

theorem asking {q : Query} {next : q.Answer → Operation Answer}
    (S : Stage p c i n h role (.ask q next)) : Asking p c i n h role q next := by
  generalize hr : Operation.ask q next = rest at S
  cases S with
  | before =>
    rw [operation_cycle] at hr
    split at hr
    · cases hr
      exact .entering
    · contradiction
  | @inside x meets =>
    cases x with
    | done r =>
      cases hr
      exact .leaving meets
    | ask q' next' =>
      cases hr
      exact .working meets
    | crash => contradiction
    | call => contradiction
  | after ended =>
    subst hr
    contradiction

/-- A member cycle that asks for something else than to be let in is inside its guard. -/
theorem inside_of_ask {q : Query} {next : q.Answer → Operation Answer}
    (S : Stage p c i n h role (.ask q next)) (entered : q ≠ .enter .member) :
    role = some .member := by
  cases S.asking with
  | entering => contradiction
  | working => rfl
  | leaving => rfl

/-- A member cycle calls the store at work only. -/
theorem calling {call : StoreCall} {next : call.Reply → Operation Answer}
    (S : Stage p c i n h role (.call call next)) :
    role = some .member ∧ ∃ rest : call.Reply → Operation (Except PoolError Bool),
      (next = fun r => (rest r).bind fun _ => leaving) ∧
      (Operation.call call rest).Meets (terms p c.pod i n (.cycle .member))
        (fun _ k => Finished p c.pod i n k) h := by
  generalize hr : Operation.call call next = rest at S
  cases S with
  | before =>
    rw [operation_cycle] at hr
    split at hr <;> contradiction
  | @inside x meets =>
    cases x with
    | done r => contradiction
    | ask q' next' => contradiction
    | crash => contradiction
    | call call' next' =>
      cases hr
      exact ⟨rfl, next', rfl, meets⟩
  | after ended =>
    subst hr
    contradiction

/-- What others do changes no stage, if it is within their terms while the cycle is at work. -/
theorem later {rest : Operation Answer} (S : Stage p c i n h role rest)
    (others : role = some .member → rest.isUnderWay = true →
      Rely p c.pod i (.cycle .member) h k) : Stage p c i n k role rest := by
  cases S with
  | before => exact .before
  | @inside x meets =>
    cases underWay : (x.bind fun _ => leaving).isUnderWay with
    | false => exact .after underWay
    | true => exact .inside (meets.later (others rfl underWay))
  | after ended => exact .after ended

/-- The next stage after a question. -/
theorem asked {q : Query} {next : q.Answer → Operation Answer} {a : q.Answer}
    (S : Stage p c i n h role (.ask q next)) (G : Ground p c.pod i h) (agrees : c.pool.Agrees p)
    (named : Text.isBlankText c.pod = false) (answer : h.ask i q = some (a, k)) :
    Stage p c i n k (q.inside role a) (next a) := by
  cases S.asking with
  | entering =>
    cases a with
    | false => exact .after rfl
    | true => exact .inside (meets_acquire named agrees rfl)
  | @working _ next meets =>
    obtain ⟨may, goesOn⟩ := meets _ ⟨.refl _, G⟩
    have inside : q.inside (some .member) a = some .member := by
      cases q with
      | enter role => exact may.elim
      | leave role => exact may.elim
      | _ => rfl
    rw [inside]
    exact .inside (goesOn a k answer)
  | leaving => exact .after rfl

/-- The next stage after a call. -/
theorem called {call : StoreCall} {next : call.Reply → Operation Answer}
    (S : Stage p c i n h role (.call call next)) (G : Ground p c.pod i h) :
    Stage p c i n (h.call i n call) role (next (h.reply call)) := by
  obtain ⟨rfl, rest, rfl, meets⟩ := S.calling
  exact .inside (meets _ ⟨.refl _, G⟩).2

/-- A call of a member cycle keeps the replica's memory tidy. -/
theorem tidy_call {call : StoreCall} {next : call.Reply → Operation Answer}
    (S : Stage p c i n h role (.call call next)) (G : Ground p c.pod i h) :
    (h.call i n call).IsTidy p c.pod i := by
  obtain ⟨-, rest, -, meets⟩ := S.calling
  exact (meets _ ⟨.refl _, G⟩).1

/-- What a member cycle announces is true. -/
theorem mayAnnounce {kind : EventKind} {lease : String} {next : Unit → Operation Answer}
    (S : Stage p c i n h role (.ask (.announce kind lease) next)) (G : Ground p c.pod i h) :
    MayAsk p c.pod i (.cycle .member) h (.announce kind lease) := by
  cases S.asking with
  | working meets => exact (meets _ ⟨.refl _, G⟩).1

end Stage

/-- An announcement that is true keeps the replica's memory tidy. -/
theorem tidy_announce {job : Job} {kind : EventKind} {lease : String} {a : Unit}
    (M : MayAsk p c.pod i job h (.announce kind lease)) (T : h.IsTidy p c.pod i)
    (answer : h.ask i (.announce kind lease) = some (a, k)) : k.IsTidy p c.pod i := by
  have holds : ∀ l, k.Holds p c.pod l → h.Holds p c.pod l := fun l hl =>
    ((History.quiet_ask answer).holds).1 hl
  refine ⟨fun l m hl hm => T.single l m (holds l hl) (holds m hm), ?_, ?_⟩
  · intro name hname
    obtain ⟨rfl, rfl⟩ := History.eq_of_held?_announce answer hname
    exact M.2.2.1
  · intro name hname l hl
    obtain ⟨rfl, rfl⟩ := History.eq_of_held?_announce answer hname
    exact M.2.2.2.1 l (holds l hl)

/-! ## Cycles that get stuck -/

/-- Work that is done does not get stuck at the end of its cycle. -/
theorem eq_crash_of_bind {x : Operation (Except PoolError Bool)}
    (h : (x.bind fun _ => leaving) = .crash) : x = .crash := by
  cases x with
  | crash => rfl
  | done r => contradiction
  | call c next => contradiction
  | ask q next => contradiction

/-- A member cycle gets stuck after a question only on a lease whose claim ends beyond the
calendar. -/
theorem Stage.stuck_of_asked {q : Query} {next : q.Answer → Operation Answer} {a : q.Answer}
    (S : Stage p c i n h role (.ask q next)) (G : Ground p c.pod i h) (G' : Ground p c.pod i k)
    (answer : h.ask i q = some (a, k)) (inside : q.inside role a = some .member)
    (stuck : next a = .crash) :
    ∀ name, k.held? i = some name → ∀ l, k.Holds p c.pod l → l.expiry = .outOfRange := by
  cases S.asking with
  | entering =>
    cases a with
    | false => contradiction
    | true => contradiction
  | @working _ next meets =>
    have goesOn := (meets _ ⟨.refl _, G⟩).2 a k answer
    rw [eq_crash_of_bind stuck] at goesOn
    exact goesOn k ⟨.refl _, G'⟩
  | leaving => contradiction

/-- And likewise after a call. -/
theorem Stage.stuck_of_called {call : StoreCall} {next : call.Reply → Operation Answer}
    (S : Stage p c i n h role (.call call next)) (G : Ground p c.pod i h)
    (G' : Ground p c.pod i (h.call i n call)) (stuck : next (h.reply call) = .crash) :
    ∀ name, (h.call i n call).held? i = some name → ∀ l, (h.call i n call).Holds p c.pod l →
      l.expiry = .outOfRange := by
  obtain ⟨-, rest, rfl, meets⟩ := S.calling
  have goesOn := (meets _ ⟨.refl _, G⟩).2
  rw [eq_crash_of_bind stuck] at goesOn
  exact goesOn _ ⟨.refl _, G'⟩

end Member

end LeasePool
