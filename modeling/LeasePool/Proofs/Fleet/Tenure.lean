import LeasePool.Proofs.Fleet.Attendance

/-!
# Tenures

A replica that is bound to a member lease stays so while its claim is good: while it renews the
claim in time, does not give it up and does not restart. Nobody else writes the lease, since
whoever does so must find the claim expired; so every renewal is made of the lease as it is
stored, and none can lose a race.

Two things are needed besides. The replica has to make its releases between its cycles: one that
has found the lease in other hands would otherwise announce that after the next cycle has claimed
the lease again. And the end of the claim has to be a date of the calendar: otherwise a renewal that
looks at it cannot go on.
-/

namespace LeasePool

instance (l : Lease) (now : Instant) : Decidable (l.ExpiredBy now) :=
  decidable_of_iff (∃ renewed ∈ l.claim.renewed, ∃ duration ∈ l.claim.duration,
    renewed.instant.plus (duration.toInt * 1000000000) < now) <| by
    constructor
    · rintro ⟨renewed, hr, duration, hd, late⟩
      exact ⟨renewed, duration, hr, hd, late⟩
    · rintro ⟨renewed, duration, hr, hd, late⟩
      exact ⟨renewed, hr, duration, hd, late⟩

/-- Whether an operation has come to a point from which it cannot go on. -/
def Operation.isStuck {α : Type} : Operation α → Bool
  | crash => true
  | done _ | call .. | ask .. => false

namespace History

/-- A pod has claimed a lease, it has not given it up, and the claim has not expired. -/
def IsUnexpired (h : History) (pod : String) (k : LeaseKey) : Prop :=
  ∃ c ∈ h.claimOf? pod k, ¬ c.ExpiredBy h.now

/-- And the end of the claim is a date of the calendar. -/
def InTerm (h : History) (pod : String) (k : LeaseKey) : Prop :=
  ∃ c ∈ h.claimOf? pod k, ¬ c.ExpiredBy h.now ∧ c.expiry ≠ .outOfRange

instance (h : History) (pod : String) (k : LeaseKey) : Decidable (h.IsUnexpired pod k) :=
  inferInstanceAs (Decidable (∃ c ∈ h.claimOf? pod k, ¬ c.ExpiredBy h.now))

instance (h : History) (pod : String) (k : LeaseKey) : Decidable (h.InTerm pod k) :=
  inferInstanceAs (Decidable (∃ c ∈ h.claimOf? pod k, ¬ c.ExpiredBy h.now ∧ c.expiry ≠ .outOfRange))

end History

theorem Operation.eq_crash_of_isStuck {α : Type} {x : Operation α} (h : x.isStuck = true) :
    x = .crash := by
  cases x with
  | crash => rfl
  | _ => contradiction

namespace Fleet

/-- What a replica that is bound to a lease can count on between `f` and `g`. -/
structure KeepsLease (i : Nat) (k : LeaseKey) (f g : Fleet) : Prop where
  /-- It stays bound to the lease. -/
  bound : g.boundTo? i = some k.name
  /-- Its controller announces no event. -/
  silent : g.eventsOf (g.scene.podOf i) = f.eventsOf (g.scene.podOf i)
  /-- Nobody else writes the lease. -/
  alone : ∀ newer, g.log = newer ++ f.log → ∀ w ∈ newer, ∀ l, w.stored? = some l → l.key = k →
    w.pod = g.scene.podOf i
  /-- A cycle that ends has claimed the lease, if all its calls were answered. -/
  renews : ∀ (n : Nat) (e : Errand) next, g.errands[n]? = some e → e.replica = i →
    e.rest = .ask (.leave .member) next →
    (∀ w ∈ g.log, w.errand = n → w.isAnswered = true) → g.HasClaimed n (g.scene.podOf i) k
  /-- And no cycle gets stuck. -/
  goesOn : ∀ (n : Nat) (e : Errand), g.errands[n]? = some e → e.replica = i →
    e.inside = some .member → e.rest.isStuck = false

/-- The move that has led to `f` has bound a replica to a lease. -/
structure IsBinding (rule : Fleet → Move → Prop) (i : Nat) (name : String) (start f : Fleet) :
    Prop where
  binds : ∃ before m, Reaches rule start before ∧ rule before m ∧ before.turn? m = some f ∧
    before.boundTo? i ≠ some name
  bound : f.boundTo? i = some name

/-- From `f` on up to `g` a term has lasted, and a replica has not restarted. -/
structure IsTenure (rule : Fleet → Move → Prop) (term : Fleet → Prop) (i : Nat) (f g : Fleet) :
    Prop where
  run : Reaches (fun h m => rule h m ∧ term h ∧ m ≠ .restart i) f g
  lasts : term g

variable {f g : Fleet} {m : Move} {p : Pool} {who : Nat → Participant} {i n : Nat} {e : Errand}
  {name : String}

/-! ## What makes for a tenure -/

/-- The coordinator of a process is bound to the lease that the process holds. -/
theorem boundTo?_of_reaches (pristine : f.IsPristine p)
    (present : (f.scene.participant? i).isSome = true) (run : Reaches (Orderly i) f g) :
    g.boundTo? i = g.held? i := by
  induction run with
  | refl =>
    cases hr : f.scene.replicas[i]? with
    | none => simp [History.boundTo?, History.held?, hr]
    | some r =>
      rw [History.boundTo?, History.held?, hr, ← pristine.idle r (List.mem_of_getElem? hr)]
      rfl
  | @tail g g' run turn ih =>
    obtain ⟨m, hm, turn⟩ := turn
    have A := isAttended_of_reaches pristine present run
    cases A.memory A.distinct A.present turn with
    | same same => rw [same.bound, same.held, ih]
    | announced _ _ _ held bound => rw [held, bound]
    | entered _ _ _ lease => rw [lease.bound, lease.held, ih]
    | left _ _ _ lease => rw [lease.bound, lease.held, ih]
    | abandoned _ _ _ lease => rw [lease.bound, lease.held, ih]
    | restarted held bound => rw [held, bound]

namespace IsAttended

variable (A : f.IsAttended p who i)
include A

/-- While its claim is good, the pod of a replica holds the lease that the replica knows of. -/
theorem holds_of_inTerm (X : IsExclusive f.toHistory) (held : f.held? i = some name)
    (term : f.InTerm (who i).pod ⟨p.ns, name⟩) :
    ∃ l, f.Holds p (who i).pod l ∧ l.key = ⟨p.ns, name⟩ ∧ ¬ l.ExpiredBy f.now ∧
      l.expiry ≠ .outOfRange := by
  obtain ⟨c, hc, good, ends⟩ := term
  obtain ⟨-, key, mine⟩ := History.of_claimOf? hc
  have stored := (X _ _ c hc).resolve_right good
  have named : c.name = name := congrArg LeaseKey.name key
  refine ⟨c, ⟨key ▸ stored, mine, ?_⟩, key, good, ends⟩
  rw [named]
  exact A.attends.tidy.named name held

/-- While its claim is good, a replica that does not restart remembers its lease and announces
nothing: it would have to know of no lease, or its pod would have to hold none. -/
theorem sameLease_of_inTerm (X : IsExclusive f.toHistory) (held : f.held? i = some name)
    (term : f.InTerm (who i).pod ⟨p.ns, name⟩) (h : f.turn? m = some g) (stays : m ≠ .restart i) :
    f.toHistory.SameLease i g.toHistory := by
  cases A.memory A.distinct A.present h with
  | same same => exact same.toSameLease
  | @announced n e kind lease next he own rest =>
    obtain ⟨may, -⟩ := A.mayAnnounce he own rest
    obtain ⟨l, holds, -⟩ := A.holds_of_inTerm X held term
    cases kind with
    | acquired =>
      have unaware := may.2.1
      rw [held] at unaware
      contradiction
    | lost => exact absurd holds (may name held l)
    | released => exact absurd holds (may name held l)
  | entered _ _ _ lease => exact lease
  | left _ _ _ lease => exact lease
  | abandoned _ _ _ lease => exact lease
  | restarted => exact absurd rfl stays

/-- A member cycle that is about to end has claimed the lease that the replica knows of, or one
of its calls was not answered. -/
theorem finished_of_leaving {next : Unit → Operation Answer} (he : f.errands[n]? = some e)
    (own : e.replica = i) (hr : e.rest = .ask (.leave .member) next) :
    Member.Finished p (who i).pod i n f.toHistory := by
  have permits : (e.job.warrant (who e.replica)).enters .member := A.permits he hr
  have cycle := Job.enters_of_controller (A.jobs n e he) permits
  have S := A.attends.cycles n e he own cycle
  rw [hr] at S
  generalize e.inside = role at S
  cases S.asking with
  | working meets => exact (meets _ ⟨.refl _, A.ground⟩).1.elim
  | leaving meets => exact meets _ ⟨.refl _, A.ground⟩

/-- So it has claimed the lease if all its calls were answered. -/
theorem hasClaimed_of_leaving (held : f.held? i = some name) {next : Unit → Operation Answer}
    (he : f.errands[n]? = some e) (own : e.replica = i) (hr : e.rest = .ask (.leave .member) next)
    (answered : ∀ w ∈ f.log, w.errand = n → w.isAnswered = true) :
    f.HasClaimed n (f.scene.podOf i) ⟨p.ns, name⟩ := by
  rw [A.podOf_eq]
  rcases A.finished_of_leaving he own hr name held with ⟨w, hw, mine, unanswered⟩ | claimed
  · rw [answered w hw mine] at unanswered
    contradiction
  · exact claimed

/-- While the claim of the replica is good, a member cycle that is stuck was so before: it gets
stuck only over a claim that ends beyond the calendar. -/
theorem stuck_before (h : f.turn? m = some g) (A' : g.IsAttended p who i)
    (X : IsExclusive g.toHistory) (held : g.held? i = some name)
    (term : g.InTerm (who i).pod ⟨p.ns, name⟩) (he : g.errands[n]? = some e)
    (own : e.replica = i) (inside : e.inside = some .member) (stuck : e.rest.isStuck = true) :
    ∃ d, f.errands[n]? = some d ∧ d.replica = i ∧ d.inside = some .member ∧
      d.rest.isStuck = true := by
  obtain ⟨l, holds, -, -, ends⟩ := A'.holds_of_inTerm X held term
  have T := A.attends
  have G := A.ground
  have G' := A'.ground
  have cycle := A'.attends.roles n e he own inside
  have crash := Operation.eq_crash_of_isStuck stuck
  subst own
  cases fate_of_turn? h he with
  | kept before => exact ⟨e, before, rfl, inside, stuck⟩
  | givenUp => contradiction
  | restarted => contradiction
  | @asked _ d q next a before rest answer =>
    have S := T.cycles n d before rfl cycle
    rw [rest] at S
    exact absurd (S.stuck_of_asked G G' answer inside crash name held l holds) ends
  | stuck _ _ answer => exact absurd answer (History.ask_ne_none A.still)
  | @called _ d c next before rest same =>
    have S := T.cycles n d before rfl cycle
    rw [rest] at S
    rw [same] at G' held holds
    exact absurd (S.stuck_of_called G G' crash name held l holds) ends
  | begun => contradiction

end IsAttended

/-! ## The tenure -/

/-- The lease that a replica knows of is not overwritten by anybody else while its claim is
good. -/
theorem IsAttended.own_of_stored (A : g.IsAttended p who i)
    (X : IsExclusive g.toHistory)
    (held : g.held? i = some name) (term : g.InTerm (who i).pod ⟨p.ns, name⟩)
    {c : StoreCall} {next : c.Reply → Operation Answer} {l : Lease}
    (he : g.errands[n]? = some e) (hr : e.rest = .call c next)
    (hs : c.stored? (g.reply c) = some l) (key : l.key = ⟨p.ns, name⟩) :
    g.scene.podOf e.replica = g.scene.podOf i := by
  obtain ⟨b, holds, at_, good, -⟩ := A.holds_of_inTerm X held term
  have conforms := A.conforms b (A.sound.stored _ _ holds.stored)
  have stored : g.scene.store.leases.get? l.key = some b := by
    rw [key, ← at_]
    exact holds.stored
  rcases (A.of_stored he hr hs).own_or_expired conforms stored holds.held with ⟨own, -⟩ | expired
  · rw [A.podOf_eq, A.podOf_eq, own]
  · exact absurd expired good

/-- During its term a replica that knows of its lease keeps it from one move to the next. -/
theorem KeepsLease.turn {g' : Fleet} (K : KeepsLease i ⟨p.ns, name⟩ f g)
    (A : g.IsAttended p who i) (A' : g'.IsAttended p who i)
    (X : IsExclusive g.toHistory) (X' : IsExclusive g'.toHistory)
    (held : g.held? i = some name)
    (term : g.InTerm (g.scene.podOf i) ⟨p.ns, name⟩)
    (term' : g'.InTerm (g'.scene.podOf i) ⟨p.ns, name⟩) (h : g.turn? m = some g')
    (stays : m ≠ .restart i) : KeepsLease i ⟨p.ns, name⟩ f g' := by
  have pod : g'.scene.podOf i = g.scene.podOf i := (grows_of_turn? h).podOf i
  rw [A.podOf_eq] at term
  rw [A'.podOf_eq] at term'
  have same := A.sameLease_of_inTerm X held term h stays
  have held' : g'.held? i = some name := same.held.trans held
  refine ⟨same.bound.trans K.bound, ?_, ?_, ?_, ?_⟩
  · rw [pod, same.events, K.silent]
  · intro newer hlog w hw l hl key
    rw [pod]
    rcases quiet_or_call h with quiet | ⟨n, e, c, next, -, he, hr, eq⟩
    · exact K.alone newer (quiet.same ▸ hlog) w hw l hl key
    · rw [eq, History.log_call] at hlog
      rcases List.cons_eq_append_iff.1 hlog with ⟨rfl, -⟩ | ⟨older, rfl, old⟩
      · contradiction
      · rcases List.mem_cons.1 hw with rfl | hw
        · exact A.own_of_stored X held term he hr hl key
        · exact K.alone older old w hw l hl key
  · intro n e next he own hr answered
    exact A'.hasClaimed_of_leaving held' he own hr answered
  · intro n e he own inside
    refine Bool.eq_false_iff.2 ?_
    intro stuck
    obtain ⟨d, hd, mine, was, crash⟩ := A.stuck_before h A' X' held' term' he own inside stuck
    rw [K.goesOn n d hd mine was] at crash
    contradiction

/-- A replica is bound to a lease by the announcement of a member cycle inside its guard. -/
theorem IsAttended.announced_of_bound (A : f.IsAttended p who i)
    (h : f.turn? m = some g)
    (unbound : f.boundTo? i ≠ some name) (bound : g.boundTo? i = some name) :
    ∃ n e next, m = .go n ∧ f.errands[n]? = some e ∧ e.replica = i ∧
      e.rest = .ask (.announce .acquired name) next ∧ e.inside = some .member := by
  cases A.memory A.distinct A.present h with
  | same same => exact absurd (same.bound ▸ bound) unbound
  | @announced n e kind lease next he own rest _ binds =>
    rw [binds] at bound
    split at bound
    · rename_i acquired
      subst acquired
      obtain rfl := Option.some.inj bound
      obtain ⟨may, ⟨-, inside⟩ | release⟩ := A.mayAnnounce he own rest
      · exact ⟨n, e, next, rfl, he, own, rest, inside⟩
      · rw [release] at may
        exact absurd may.1 (by simp)
    · contradiction
  | entered _ _ _ lease => exact absurd (lease.bound ▸ bound) unbound
  | left _ _ _ lease => exact absurd (lease.bound ▸ bound) unbound
  | abandoned _ _ _ lease => exact absurd (lease.bound ▸ bound) unbound
  | restarted _ none =>
    rw [none] at bound
    contradiction

/-- When a replica has just been bound to a lease, its pod has claimed the lease. -/
theorem IsAttended.claimed_of_bound (A : f.IsAttended p who i)
    (h : f.turn? m = some g)
    (unbound : f.boundTo? i ≠ some name) (bound : g.boundTo? i = some name) :
    (g.claimOf? (g.scene.podOf i) ⟨p.ns, name⟩).isSome = true := by
  obtain ⟨n, e, next, rfl, he, own, hr, -⟩ := A.announced_of_bound h unbound bound
  obtain ⟨a, answer⟩ := history_of_ask h A.still he hr
  obtain ⟨may, -⟩ := A.mayAnnounce he own hr
  rw [(History.quiet_ask answer).claimOf?_eq, (grows_of_turn? h).podOf, A.podOf_eq]
  exact may.2.2.2.2

/-- The beginning of a tenure. -/
theorem KeepsLease.start (A : f.IsAttended p who i) (A' : g.IsAttended p who i)
    (X' : IsExclusive g.toHistory)
    (h : f.turn? m = some g) (unbound : f.boundTo? i ≠ some name)
    (bound : g.boundTo? i = some name) (held : g.held? i = some name)
    (term : g.InTerm (g.scene.podOf i) ⟨p.ns, name⟩) : KeepsLease i ⟨p.ns, name⟩ g g := by
  rw [A'.podOf_eq] at term
  refine ⟨bound, rfl, ?_, ?_, ?_⟩
  · intro newer hlog w hw
    rw [List.self_eq_append_left.1 hlog] at hw
    contradiction
  · intro n e next he own hr answered
    exact A'.hasClaimed_of_leaving held he own hr answered
  · intro n e he own inside
    refine Bool.eq_false_iff.2 ?_
    intro stuck
    obtain ⟨d, hd, mine, was, crash⟩ := A.stuck_before h A' X' held term he own inside stuck
    -- The cycle that has made the announcement is the only one inside, and it is not stuck.
    obtain ⟨k, b, next, -, hb, own', hr, there⟩ := A.announced_of_bound h unbound bound
    obtain rfl := A.attends.single n k d b hd hb mine own' was there
    obtain rfl := Option.some.inj (hd.symm.trans hb)
    rw [Operation.eq_crash_of_isStuck crash] at hr
    contradiction

/-- **A replica that renews in time keeps its lease.** From the move on that binds a replica to a
member lease there is a claim of its pod on the lease; and as long as the pod does not give the
claim up, the claim has not expired and ends within the calendar, and the replica does not
restart, it stays bound to the lease, announces nothing, nobody else writes the lease, and every
renewal whose calls are answered succeeds. This is so whatever the controllers do in whatever
order, with outages, crashes, and restarts of others, if the replica makes its own releases between
its cycles. -/
theorem tenure_of_reaches {start : Fleet} (pristine : start.IsPristine p)
    (binding : IsBinding (Orderly i) i name start f) :
    (f.claimOf? (f.scene.podOf i) ⟨p.ns, name⟩).isSome = true ∧
    ∀ g, IsTenure (Orderly i) (fun h => h.InTerm (h.scene.podOf i) ⟨p.ns, name⟩) i f g →
      KeepsLease i ⟨p.ns, name⟩ f g := by
  obtain ⟨⟨before, m, run, orderly, turn, unbound⟩, bound⟩ := binding
  have first : Reaches (Orderly i) start f := run.tail ⟨m, orderly, turn⟩
  have present : (start.scene.participant? i).isSome = true := by
    rw [← (grows_of_reaches first).participant]
    cases hr : f.scene.replicas[i]? with
    | none => simp [History.boundTo?, hr] at bound
    | some r => simp [Scene.participant?, hr]
  have attended : ∀ {g}, Reaches (Orderly i) start g →
      g.IsAttended p start.scene.participantOf i := isAttended_of_reaches pristine present
  have exclusive : ∀ {g : Fleet}, Reaches (Orderly i) start g → IsExclusive g.toHistory :=
    isExclusive_of_reaches (fun _ _ orderly => orderly.controlled) pristine.toIsFresh
  have holds : ∀ {g}, Reaches (Orderly i) start g → g.boundTo? i = some name →
      g.held? i = some name := by
    intro g reached bound
    rw [← boundTo?_of_reaches pristine present reached]
    exact bound
  refine ⟨(attended run).claimed_of_bound turn unbound bound, ?_⟩
  intro g tenure
  obtain ⟨tenure, lasts⟩ := tenure
  induction tenure with
  | refl =>
    exact KeepsLease.start (attended run) (attended first) (exclusive first) turn unbound bound
      (holds first bound) lasts
  | @tail g g' tenure turn ih =>
    have reached : Reaches (Orderly i) start g :=
      first.trans (reaches_mono (fun _ _ may => may.1) tenure)
    obtain ⟨m, ⟨orderly, term, stays⟩, turn⟩ := turn
    have K := ih term
    have reached' : Reaches (Orderly i) start g' := reached.tail ⟨m, orderly, turn⟩
    exact K.turn (attended reached) (attended reached') (exclusive reached) (exclusive reached')
      (holds reached K.bound) term lasts turn stays

/-! ## Runs -/

/-- Whether moves lead to one that binds a replica to a lease, and whether what follows is a
tenure with some property. -/
def hasTenure (allowed : Fleet → Move → Bool) (term : Fleet → Prop) [DecidablePred term] (i : Nat)
    (name : String) (before : List Move) (m : Move) (after : List Move) (property : Fleet → Bool)
    (start : Fleet) : Bool :=
  start.leadsTo allowed before fun b =>
    allowed b m && b.boundTo? i ≠ some name && (b.turn? m).any fun f =>
      f.boundTo? i = some name &&
        f.leadsTo (fun h m => allowed h m && term h && m ≠ .restart i) after fun g =>
          term g && property g

theorem exists_of_hasTenure {rule : Fleet → Move → Prop} {allowed : Fleet → Move → Bool}
    (sound : ∀ f m, allowed f m = true → rule f m) {term : Fleet → Prop} [DecidablePred term]
    {before after : List Move} {property : Fleet → Bool} {start : Fleet}
    (h : start.hasTenure allowed term i name before m after property = true) :
    ∃ f g, IsBinding rule i name start f ∧ IsTenure rule term i f g ∧ property g = true := by
  obtain ⟨b, run, h⟩ := exists_of_leadsTo h
  simp only [Bool.and_eq_true, decide_eq_true_eq] at h
  obtain ⟨⟨may, unbound⟩, h⟩ := h
  obtain ⟨f, turn, h⟩ := (Option.any_eq_true _ _).1 h
  simp only [Bool.and_eq_true, decide_eq_true_eq] at h
  obtain ⟨bound, h⟩ := h
  obtain ⟨g, tenure, h⟩ := exists_of_leadsTo h
  simp only [Bool.and_eq_true, decide_eq_true_eq] at h
  refine ⟨f, g, ⟨⟨b, m, reaches_of_run? sound run, sound b m may, turn, unbound⟩, bound⟩,
    ⟨reaches_of_run? ?_ tenure, h.1⟩, h.2⟩
  intro h m may
  simp only [Bool.and_eq_true, decide_eq_true_eq] at may
  exact ⟨sound h m may.1.1, may.1.2, may.2⟩

/-- A leader creates the member lease and makes all requests of a member cycle but the last two:
to note that the lease has been acquired, and to leave. -/
def claiming : List Move :=
  [.begin 0 (.cycle .leader)] ++ Move.goes 0 10 ++ [.begin 0 (.cycle .member)] ++ Move.goes 1 6

/-- After twenty seconds another one looks for a lease in vain, and the claim is renewed during a
cycle that is about to end. -/
def renewing : List Move :=
  [.go 1, .advance (.ofSeconds 20), .begin 1 (.cycle .member)] ++ Move.goes 2 5 ++
    [.begin 0 (.cycle .member)] ++ Move.goes 3 6

/-- Since it was bound the replica has kept its lease. -/
theorem tenure_of_renewal :
    ∃ f g, IsBinding (Orderly 0) 0 Pool.smallKey.name (small ⟨0⟩) f ∧
      (f.claimOf? (f.scene.podOf 0) Pool.smallKey).isSome = true ∧
      IsTenure (Orderly 0) (fun h => h.InTerm (h.scene.podOf 0) Pool.smallKey) 0 f g ∧
      g.now = ⟨20000000000⟩ ∧ KeepsLease 0 Pool.smallKey f g := by
  have has : (small ⟨0⟩).hasTenure isOrderly
      (fun h => h.InTerm (h.scene.podOf 0) Pool.smallKey) 0 Pool.smallKey.name claiming (.go 1)
      renewing (fun g => g.now = ⟨20000000000⟩) = true := by decide +kernel
  obtain ⟨f, g, binding, tenure, late⟩ :=
    exists_of_hasTenure (fun _ _ h => orderly_of_isOrderly h 0) has
  obtain ⟨claimed, keeps⟩ := tenure_of_reaches (isPristine_small _) binding
  exact ⟨f, g, binding, claimed, tenure, of_decide_eq_true late, keeps g tenure⟩

/-- A release finds the lease in the hands of somebody else and has not announced that yet, when a
cycle of the same replica notices the loss and, as the other claim expires, the next cycle is about
to claim the lease again. -/
def overlapping : List Move :=
  claiming ++ [.go 1, .go 1, .advance (.ofSeconds 31), .begin 1 (.cycle .member)] ++
    Move.goes 2 8 ++ [.begin 0 (.release .member)] ++ Move.goes 3 2 ++
    [.begin 0 (.cycle .member)] ++ Move.goes 4 6 ++
    [.advance (.ofSeconds 31), .begin 0 (.cycle .member)] ++ Move.goes 5 6

/-- A quarter of a minute before the end of the calendar. -/
def lateInstant : Instant := ⟨253402300785000000000⟩

/-- **What else is needed**: a replica that renews in time may lose its lease all the same if a
release is under way together with cycles, and its renewals may fail if its claim ends beyond the
calendar. -/
theorem tenure_ends_early :
    (∀ t, (small t).IsPristine .small) ∧
    (∃ f g, IsBinding Controlled 0 Pool.smallKey.name (small ⟨0⟩) f ∧
      IsTenure Controlled (fun h => h.InTerm (h.scene.podOf 0) Pool.smallKey) 0 f g ∧
      ¬ KeepsLease 0 Pool.smallKey f g) ∧
    ∃ f g, IsBinding (Orderly 0) 0 Pool.smallKey.name (small lateInstant) f ∧
      IsTenure (Orderly 0) (fun h => h.IsUnexpired (h.scene.podOf 0) Pool.smallKey) 0 f g ∧
      ¬ KeepsLease 0 Pool.smallKey f g := by
  refine ⟨isPristine_small, ?_, ?_⟩
  · have has : (small ⟨0⟩).hasTenure (fun _ m => m.isOfController)
        (fun h => h.InTerm (h.scene.podOf 0) Pool.smallKey) 0 Pool.smallKey.name overlapping
        (.go 5) [.go 3] (fun g => g.boundTo? 0 = none) = true := by decide +kernel
    obtain ⟨f, g, binding, tenure, unbound⟩ := exists_of_hasTenure (fun _ _ h => h) has
    refine ⟨f, g, binding, tenure, ?_⟩
    intro keeps
    rw [keeps.bound] at unbound
    simp at unbound
  · have has : (small lateInstant).hasTenure isOrderly
        (fun h => h.IsUnexpired (h.scene.podOf 0) Pool.smallKey) 0 Pool.smallKey.name claiming
        (.go 1) ([.go 1, .begin 0 (.cycle .member)] ++ Move.goes 2 4)
        (fun g => g.errands[2]?.any fun e =>
          e.replica = 0 && e.inside = some .member && e.rest.isStuck) = true := by decide +kernel
    obtain ⟨f, g, binding, tenure, stuck⟩ :=
      exists_of_hasTenure (fun _ _ h => orderly_of_isOrderly h 0) has
    refine ⟨f, g, binding, tenure, ?_⟩
    intro keeps
    obtain ⟨e, he, stuck⟩ := (Option.any_eq_true _ _).1 stuck
    simp only [Bool.and_eq_true, decide_eq_true_eq] at stuck
    rw [keeps.goesOn 2 e he stuck.1.1 stuck.1.2] at stuck
    exact absurd stuck.2 Bool.false_ne_true

end Fleet

end LeasePool
