import LeasePool.Proofs.Fleet.History

/-!
# Operations among others

An operation is one of many that go on over the same store. The terms on which it runs say what
it may count on, namely what holds at all times and what others may do between its requests, and
what is asked of it in return, request by request. `Operation.Meets` says that an operation keeps
its side of the terms from a history on, whatever the others do within theirs, and that its
result is as promised. It is proved for a composite operation from its parts, without a look at
any interleaving; the fleet then puts the operations together.
-/

namespace LeasePool

/-- The terms on which an operation of a replica runs. -/
structure Terms where
  replica : Nat
  /-- The number of the errand. -/
  errand : Nat
  /-- What holds at all times. -/
  holds : History → Prop
  /-- What others may do between two requests. -/
  rely : History → History → Prop
  mayAsk : History → Query → Prop
  mayCall : History → StoreCall → Prop
  mayCrash : History → Prop
  refl : ∀ h, rely h h
  trans : ∀ {a b c}, rely a b → rely b c → rely a c
  grows : ∀ {a b}, rely a b → a.Grows b

/-- A history to which others may bring the given one. -/
def Terms.Later (T : Terms) (h h' : History) : Prop := T.rely h h' ∧ T.holds h'

namespace Operation

variable {α β : Type} {T : Terms} {h h' : History}

/-- The operation keeps to the terms from the history on, and its result fulfils `Q`. -/
def Meets (T : Terms) (Q : α → History → Prop) : Operation α → History → Prop
  | done a, h => ∀ h', T.Later h h' → Q a h'
  | crash, h => ∀ h', T.Later h h' → T.mayCrash h'
  | ask q next, h => ∀ h', T.Later h h' →
    T.mayAsk h' q ∧ ∀ a k, h'.ask T.replica q = some (a, k) → (next a).Meets T Q k
  | call c next, h => ∀ h', T.Later h h' →
    T.mayCall h' c ∧ (next (h'.reply c)).Meets T Q (h'.call T.replica T.errand c)

/-- Nothing that others do within their terms keeps an operation from meeting its own. -/
theorem Meets.later {Q : α → History → Prop} {x : Operation α} (H : x.Meets T Q h)
    (r : T.rely h h') : x.Meets T Q h' := by
  cases x with
  | done a => exact fun k l => H k ⟨T.trans r l.1, l.2⟩
  | crash => exact fun k l => H k ⟨T.trans r l.1, l.2⟩
  | ask q next => exact fun k l => H k ⟨T.trans r l.1, l.2⟩
  | call c next => exact fun k l => H k ⟨T.trans r l.1, l.2⟩

/-- To meet the terms from now on it is enough to do so from any later history on. -/
theorem meets_of_later {Q : α → History → Prop} {x : Operation α}
    (H : ∀ h', T.Later h h' → x.Meets T Q h') : x.Meets T Q h := by
  cases x with
  | done a => exact fun k l => H k l k ⟨T.refl k, l.2⟩
  | crash => exact fun k l => H k l k ⟨T.refl k, l.2⟩
  | ask q next => exact fun k l => H k l k ⟨T.refl k, l.2⟩
  | call c next => exact fun k l => H k l k ⟨T.refl k, l.2⟩

/-- **An operation and what follows it.** -/
theorem meets_bind {Q : β → History → Prop} {x : Operation α} {f : α → Operation β}
    (H : x.Meets T (fun a k => (f a).Meets T Q k) h) : (x.bind f).Meets T Q h := by
  induction x generalizing h with
  | done a => exact meets_of_later H
  | crash => exact H
  | ask q next ih => exact fun k l => ⟨(H k l).1, fun a k' e => ih a ((H k l).2 a k' e)⟩
  | call c next ih => exact fun k l => ⟨(H k l).1, ih _ (H k l).2⟩

theorem meets_ask {Q : β → History → Prop} {q : Query} {f : q.Answer → Operation β}
    (H : ∀ h', T.Later h h' → T.mayAsk h' q ∧
      ∀ a k, h'.ask T.replica q = some (a, k) → (f a).Meets T Q k) :
    (ask q done >>= f).Meets T Q h := H

/-- **Whatever happens in between, the history only grows**, and what holds at all times holds at
the end. -/
theorem Meets.remember {Q : α → History → Prop} {x : Operation α} {k : History}
    (H : x.Meets T Q h) (g : k.Grows h) :
    x.Meets T (fun a h' => k.Grows h' ∧ T.holds h' ∧ Q a h') h := by
  induction x generalizing h with
  | done a => exact fun h' l => ⟨g.trans (T.grows l.1), l.2, H h' l⟩
  | crash => exact H
  | ask q next ih =>
    intro h' l
    exact ⟨(H h' l).1, fun a k' e =>
      ih a ((H h' l).2 a k' e) ((g.trans (T.grows l.1)).trans (History.grows_ask e))⟩
  | call c next ih =>
    intro h' l
    exact ⟨(H h' l).1,
      ih _ (H h' l).2 ((g.trans (T.grows l.1)).trans (History.grows_call _ _ _ _))⟩

theorem Meets.weaken {Q R : α → History → Prop} {x : Operation α} (H : x.Meets T Q h)
    (w : ∀ a h', Q a h' → R a h') : x.Meets T R h := by
  induction x generalizing h with
  | done a => exact fun h' l => w a h' (H h' l)
  | crash => exact H
  | ask q next ih => exact fun h' l => ⟨(H h' l).1, fun a k e => ih a ((H h' l).2 a k e)⟩
  | call c next ih => exact fun h' l => ⟨(H h' l).1, ih _ (H h' l).2⟩

end Operation

/-! ## Attempts -/

namespace Attempt

variable {α β : Type} {T : Terms} {h : History} {Q : Except PoolError β → History → Prop}

/-- The result, if there is no error, fulfils `Q`. -/
def Yields {α : Type} (Q : α → History → Prop) : Except PoolError α → History → Prop
  | .ok a, h => Q a h
  | .error _, _ => True

/-- Keeping to the terms with an attempt, whose error ends what follows. -/
theorem meets_bind {x : Attempt α} {f : α → Attempt β}
    (H : x.run.Meets T (fun r k => match r with
      | .ok a => (f a).run.Meets T Q k
      | .error e => (Operation.done (.error e)).Meets T Q k) h) :
    (x >>= f).run.Meets T Q h := by
  refine Operation.meets_bind (x := x.run) (H.weaken ?_)
  intro r k hr
  cases r with
  | ok a => exact hr
  | error e => exact hr

theorem meets_ask {q : Query} {f : q.Answer → Attempt β}
    (H : ∀ h', T.Later h h' → T.mayAsk h' q ∧
      ∀ a k, h'.ask T.replica q = some (a, k) → (f a).run.Meets T Q k) :
    (ask q >>= f).run.Meets T Q h := H

theorem meets_reply {c : StoreCall} {f : c.Reply → Attempt β}
    (H : ∀ h', T.Later h h' → T.mayCall h' c ∧
      (f (h'.reply c)).run.Meets T Q (h'.call T.replica T.errand c)) :
    (reply c >>= f).run.Meets T Q h := H

theorem meets_call {c : StoreCall} {f : c.Answer → Attempt β}
    (H : ∀ h', T.Later h h' → T.mayCall h' c ∧
      (∀ a, h'.reply c = .ok a → (f a).run.Meets T Q (h'.call T.replica T.errand c)) ∧
      ∀ e, h'.reply c = .error e →
        (Operation.done (.error e)).Meets T Q (h'.call T.replica T.errand c)) :
    (call c >>= f).run.Meets T Q h := by
  intro h' l
  obtain ⟨may, ok, error⟩ := H h' l
  refine ⟨may, ?_⟩
  cases hr : h'.reply c with
  | ok a => exact ok a hr
  | error e => exact error e hr

theorem meets_orCrash {o : Option α} {f : α → Attempt β}
    (some : ∀ a, o = some a → (f a).run.Meets T Q h)
    (none : o = none → ∀ h', T.Later h h' → T.mayCrash h') :
    (orCrash o >>= f).run.Meets T Q h := by
  cases o with
  | none => exact none rfl
  | some a => exact some a rfl

theorem meets_outcome {x : Attempt α} {f : Except PoolError α → Attempt β}
    (H : x.run.Meets T (fun r k => (f r).run.Meets T Q k) h) :
    (outcome x >>= f).run.Meets T Q h := by
  have assoc : (outcome x >>= f).run = x.run.bind fun r => (f r).run :=
    Operation.bind_assoc x.run _ _
  rw [assoc]
  exact Operation.meets_bind H

/-- Promises about what is no error are promises about the rest alone. -/
theorem meets_bind_yields {Q : β → History → Prop} {x : Attempt α} {f : α → Attempt β}
    (H : x.run.Meets T (Yields fun a k => (f a).run.Meets T (Yields Q) k) h) :
    (x >>= f).run.Meets T (Yields Q) h := by
  refine meets_bind (H.weaken ?_)
  intro r k hr
  cases r with
  | ok a => exact hr
  | error e => exact fun _ _ => trivial

theorem meets_call_yields {Q : β → History → Prop} {c : StoreCall} {f : c.Answer → Attempt β}
    (H : ∀ h', T.Later h h' → T.mayCall h' c ∧
      ∀ a, h'.reply c = .ok a → (f a).run.Meets T (Yields Q) (h'.call T.replica T.errand c)) :
    (call c >>= f).run.Meets T (Yields Q) h :=
  meets_call fun h' l => ⟨(H h' l).1, (H h' l).2, fun _ _ _ _ => trivial⟩

end Attempt

/-! ## Errands -/

namespace Fleet

/-- The terms for each errand, by its number, its replica and its job. -/
abbrev TermsOf := Nat → Nat → Job → Terms

/-- Every errand keeps to its terms, those that were given up excepted. -/
def Keeps (terms : TermsOf) (f : Fleet) : Prop :=
  ∀ (n : Nat) (e : Errand), f.errands[n]? = some e → e.inside ≠ none ∨ e.rest ≠ .crash →
    e.rest.Meets (terms n e.replica e.job) (fun _ _ => True) f.toHistory

variable {terms : TermsOf} {f g : Fleet} {m : Move} {n : Nat} {e : Errand}

/-- An errand calls within its terms. -/
theorem Keeps.mayCall {c : StoreCall} {next : c.Reply → Operation Answer} (K : f.Keeps terms)
    (holds : (terms n e.replica e.job).holds f.toHistory) (he : f.errands[n]? = some e)
    (hr : e.rest = .call c next) : (terms n e.replica e.job).mayCall f.toHistory c := by
  have H := K n e he (.inr (by simp [hr]))
  rw [hr] at H
  exact (H _ ⟨(terms n e.replica e.job).refl _, holds⟩).1

/-- An errand asks within its terms. -/
theorem Keeps.mayAsk {q : Query} {next : q.Answer → Operation Answer} (K : f.Keeps terms)
    (holds : (terms n e.replica e.job).holds f.toHistory) (he : f.errands[n]? = some e)
    (hr : e.rest = .ask q next) : (terms n e.replica e.job).mayAsk f.toHistory q := by
  have H := K n e he (.inr (by simp [hr]))
  rw [hr] at H
  exact (H _ ⟨(terms n e.replica e.job).refl _, holds⟩).1

/-- An errand that has been given up stays so. -/
theorem Errand.dropped_meets {T : Terms} {h : History}
    (live : e.dropped.inside ≠ none ∨ e.dropped.rest ≠ .crash) :
    e.dropped.rest.Meets T (fun _ _ => True) h := by
  cases hr : e.rest with
  | done a =>
    have : e.dropped.rest = .done a := by rw [Errand.dropped, hr]; rfl
    rw [this]
    exact fun _ _ => trivial
  | crash => simp [Errand.dropped, Operation.dropped, hr] at live
  | ask q next => simp [Errand.dropped, Operation.dropped, hr] at live
  | call c next => simp [Errand.dropped, Operation.dropped, hr] at live

/-- **A move of a fleet all of whose errands keep to their terms**: they go on doing so, if what
one of them does is within what the others count on, and a job that is begun keeps to its terms
from there on. -/
theorem Keeps.turn (K : f.Keeps terms) (h : f.turn? m = some g)
    (fits : ∀ n i job, (terms n i job).replica = i ∧ (terms n i job).errand = n)
    (holds : ∀ n i job, (terms n i job).holds f.toHistory)
    (still : f.scene.ticking = false)
    (others : ∀ (n : Nat) (e : Errand), f.errands[n]? = some e → m ≠ .go n →
      (terms n e.replica e.job).rely f.toHistory g.toHistory)
    (begun : ∀ i job r, m = .begin i job → f.scene.replicas[i]? = some r →
      (job.operation r.participant).Meets (terms f.errands.length i job) (fun _ _ => True)
        f.toHistory) : g.Keeps terms := by
  -- What others do leaves an errand that is not changed itself within its terms.
  have same : ∀ (n : Nat) (e : Errand), f.errands[n]? = some e → m ≠ .go n →
      e.inside ≠ none ∨ e.rest ≠ .crash →
      e.rest.Meets (terms n e.replica e.job) (fun _ _ => True) g.toHistory := by
    intro n e he other live
    exact (K n e he live).later (others n e he other)
  intro n e he live
  cases fate_of_turn? h he with
  | kept before notGo => exact same n e before notGo live
  | givenUp => exact Errand.dropped_meets live
  | restarted => exact Errand.dropped_meets live
  | @asked _ d q next a before rest answer =>
    have H := K n d before (.inr (by simp [rest]))
    rw [rest] at H
    have H := (H _ ⟨(terms n d.replica d.job).refl _, holds ..⟩).2 a g.toHistory
    rw [(fits n d.replica d.job).1] at H
    exact H answer
  | stuck _ _ answer => exact absurd answer (History.ask_ne_none still)
  | @called _ d c next before rest moved =>
    have H := K n d before (.inr (by simp [rest]))
    rw [rest] at H
    have H := (H _ ⟨(terms n d.replica d.job).refl _, holds ..⟩).2
    rw [(fits n d.replica d.job).1, (fits n d.replica d.job).2, ← moved] at H
    exact H
  | begun replica moved =>
    rw [moved]
    exact begun _ _ _ rfl replica

end Fleet

end LeasePool
