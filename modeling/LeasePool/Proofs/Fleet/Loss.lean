import LeasePool.Proofs.Fleet.Telling
import LeasePool.Proofs.Fleet.Tenure

/-!
# Leases that were taken

A replica that has stalled may find that somebody else has been stored as the holder of its lease.
What its next member cycle makes of that depends on whether the lease is available by then, and on
nothing else. If whoever has taken the lease still holds it and the claim is good, the lease is
lost, and the replica says so. If that one has given the lease up, or let its claim expire, the
cycle claims the lease anew; the replica stays bound to it and says nothing, although the lease has
been in other hands.
-/

namespace LeasePool

namespace History

/-- The calls since a pod has written a lease last. -/
def since (h : History) (pod : String) (k : LeaseKey) : List Exchange :=
  h.log.takeWhile fun w => (w.writtenBy? pod k).isNone

/-- Since a pod has written a lease last, somebody else has been stored as the holder. -/
def IsTaken (h : History) (pod : String) (k : LeaseKey) : Prop :=
  ∃ w ∈ h.since pod k, ∃ l ∈ w.stored?, l.key = k ∧ ∃ other ∈ l.holder?, other ≠ pod

instance (h : History) (pod : String) (k : LeaseKey) : Decidable (h.IsTaken pod k) :=
  inferInstanceAs (Decidable (∃ w ∈ h.since pod k, ∃ l ∈ w.stored?, l.key = k ∧
    ∃ other ∈ l.holder?, other ≠ pod))

variable {h h' : History} {pod : String} {k : LeaseKey} {i n : Nat} {c : StoreCall} {l : Lease}

theorem IsTaken.quiet (T : h.IsTaken pod k) (q : h.Quiet h') : h'.IsTaken pod k := by
  rw [IsTaken, since, q.same]
  exact T

/-- The calls since a pod has written a lease last, after one more call. -/
theorem since_call :
    (h.call i n c).since pod k =
      if ∃ l, c.stored? (h.reply c) = some l ∧ h.scene.podOf i = pod ∧ l.key = k then []
      else (h.call i n c).log.take 1 ++ h.since pod k := by
  simp only [since, log_call, List.takeWhile_cons, Option.isNone_iff_eq_none,
    Exchange.writtenBy?, Option.filter_eq_none_iff]
  split
  · rename_i silent
    rw [if_neg]
    · rfl
    · rintro ⟨l, hs, own, key⟩
      exact silent l hs (by simp [own, key])
  · rename_i written
    rw [if_pos]
    refine Classical.byContradiction fun none => written fun l hs => ?_
    simp only [Bool.and_eq_true, decide_eq_true_eq]
    rintro ⟨own, key⟩
    exact none ⟨l, hs, own, key⟩

/-- A lease that was taken stays so while the pod does not write it. -/
theorem IsTaken.call (T : h.IsTaken pod k)
    (others : ∀ l, c.stored? (h.reply c) = some l → l.key = k → h.scene.podOf i ≠ pod) :
    (h.call i n c).IsTaken pod k := by
  obtain ⟨w, hw, rest⟩ := T
  refine ⟨w, ?_, rest⟩
  rw [since_call, if_neg]
  · exact List.mem_append_right _ hw
  · rintro ⟨l, hs, own, key⟩
    exact others l hs key own

end History

/-- A pod has claimed a lease that it did not hold, when nobody held it or the claim of whoever
did had expired. -/
def Exchange.Reclaims (w : Exchange) (pod : String) (k : LeaseKey) : Prop :=
  ∃ b t, w.before = some b ∧ b.key = k ∧ w.call = .updateLease (b.edit (.claim pod (.utc t))) ∧
    w.stored?.isSome = true ∧ b.isHeldBy pod = false ∧
    (b.ExpiredBy w.time ∨ ∀ other, b.isHeldBy other = false)

namespace Fleet

variable {f g : Fleet} {m : Move} {p : Pool} {who : Nat → Participant} {i n : Nat} {e : Errand}
  {name pod : String} {k : LeaseKey}

/-- A lease that was taken from a pod is not held by the pod, since nobody else claims leases for
it. -/
theorem not_isHeldBy_of_isTaken {rule : Fleet → Move → Prop}
    (controlled : ∀ f m, rule f m → f.Controlled m) (fresh : f.IsFresh p)
    (run : Reaches rule f g) (taken : g.IsTaken pod k) {l : Lease}
    (hl : g.scene.store.leases.get? k = some l) : l.isHeldBy pod = false := by
  induction run generalizing l with
  | refl =>
    rw [fresh.empty] at hl
    contradiction
  | @tail g g' run turn ih =>
    obtain ⟨m, -, turn⟩ := turn
    have C := isClosed_of_reaches controlled fresh run
    obtain ⟨w, hw, x, hx, key, other, held, ne⟩ := taken
    rcases quiet_or_call turn with quiet | ⟨n, e, c, next, -, he, hr, same⟩
    · rw [quiet.leases] at hl
      rw [History.since, quiet.same] at hw
      exact ih ⟨w, hw, x, hx, key, other, held, ne⟩ hl
    rw [same] at hw hl
    rw [History.since_call] at hw
    split at hw
    · contradiction
    rename_i others
    -- It is this very call that has taken the lease, or the pod has not written it since.
    rcases List.mem_cons.1 hw with rfl | hw
    · rw [History.get?_call_of_stored hx, if_pos key.symm] at hl
      obtain rfl := Option.some.inj hl
      have taker : x.isHeldBy other = true := by simpa [Lease.isHeldBy] using held
      refine Bool.eq_false_iff.2 fun mine => ?_
      exact ne (Lease.eq_of_isHeldBy taker mine)
    · have before : g.IsTaken pod k := ⟨w, hw, x, hx, key, other, held, ne⟩
      cases hs : c.stored? (g.reply c) with
      | none =>
        rw [History.scene_call_of_not_stored hs] at hl
        exact ih before hl
      | some a =>
        rw [History.get?_call_of_stored hs] at hl
        split at hl
        · rename_i own
          obtain rfl := Option.some.inj hl
          refine Bool.eq_false_iff.2 fun mine => ?_
          obtain ⟨writer, -⟩ := (C.of_stored he hr hs).of_isHeldBy mine
          exact others ⟨a, hs, C.podOf_eq.trans writer, own.symm⟩
        · exact ih before hl

namespace IsAttended

variable (A : f.IsAttended p who i)
include A

/-- While a member cycle is under way inside its guard, nobody else writes for the pod a member
lease that exists. -/
theorem eq_of_stored {j : Nat} {d : Errand} {c : StoreCall} {next : c.Reply → Operation Answer}
    {l : Lease} (he : f.errands[n]? = some e) (own : e.replica = i)
    (inside : e.inside = some .member) (underWay : e.rest.isUnderWay = true)
    (hd : f.errands[j]? = some d) (hr : d.rest = .call c next)
    (hs : c.stored? (f.reply c) = some l) (named : p.Names .member l.name)
    (known : (f.scene.store.leases.get? l.key).isSome = true)
    (pod : f.scene.podOf d.replica = f.scene.podOf i) : j = n := by
  have mine := eq_of_pod_eq A.distinct A.present (A.known j d hd) pod
  have cycle := A.attends.roles n e he own inside
  rcases (A.of_stored hd hr hs).of_member named known with does | does
  · have S := A.attends.cycles j d hd mine does
    rw [hr] at S
    exact A.attends.single j n d e hd he mine own S.calling.1 inside
  · have ended := A.attends.apart n j e d he hd own mine cycle does underWay
    rw [hr] at ended
    contradiction

end IsAttended

/-! ## After a lease was taken -/

/-- What has become, between `f` and `g`, of a lease that was taken from a replica before `f`, while
a member cycle was inside its guard, of which `rest` is left. -/
inductive SinceTaken (k : LeaseKey) (i n : Nat) (f g : Fleet) (rest : Operation Answer) : Prop
  /-- Nothing yet. -/
  | undecided (same : f.toHistory.SameLease i g.toHistory)
    (taken : g.IsTaken (f.scene.podOf i) k)
    (unclaimed : ¬ g.HasClaimed n (f.scene.podOf i) k) : SinceTaken k i n f g rest
  /-- The cycle has claimed it anew. -/
  | reclaimed (same : f.toHistory.SameLease i g.toHistory)
    (claim : ∃ newer, g.log = newer ++ f.log ∧
      ∃ w ∈ newer, w.errand = n ∧ w.Reclaims (f.scene.podOf i) k) : SinceTaken k i n f g rest
  /-- The cycle has announced that it is lost. -/
  | lost (announced : f.toHistory.Announced i .lost k.name g.toHistory)
    (silent : rest.IsSilent) : SinceTaken k i n f g rest

variable {g' : Fleet} {d : Errand}

/-- A lease that was taken is there. -/
theorem isSome_of_isTaken (C : f.IsClosed p who) (taken : f.IsTaken pod k) :
    (f.scene.store.leases.get? k).isSome = true := by
  obtain ⟨w, hw, l, hl, rfl, -⟩ := taken
  refine C.sound.kept l (List.mem_append_left _ (List.mem_filterMap.2 ⟨w, ?_, hl⟩))
  exact (List.takeWhile_sublist _).subset hw

/-- What the log was is what it ends with after a call. -/
theorem exists_newer_call {j : Nat} {c : StoreCall} {P : Exchange → Prop}
    (H : ∃ newer, g.log = newer ++ f.log ∧ ∃ w ∈ newer, P w) :
    ∃ newer, (g.call i j c).log = newer ++ f.log ∧ ∃ w ∈ newer, P w := by
  obtain ⟨newer, hlog, w, hw, hP⟩ := H
  exact ⟨_ :: newer, congrArg _ hlog, w, List.mem_cons_of_mem _ hw, hP⟩

/-- A member cycle that writes a lease which its pod does not hold claims it for the pod, and the
lease was free. -/
theorem exists_reclaims (C : f.IsClosed p who) {c : StoreCall} {next : c.Reply → Operation Answer}
    {l : Lease} (he : f.errands[n]? = some e) (hr : e.rest = .call c next)
    (hs : c.stored? (f.reply c) = some l) (cycle : e.job = .cycle .member)
    (lost : ∀ b, f.scene.store.leases.get? l.key = some b →
      b.isHeldBy (f.scene.podOf e.replica) = false) :
    ∃ w, (f.call e.replica n c).log = w :: f.log ∧ w.errand = n ∧
      w.Reclaims (f.scene.podOf e.replica) l.key := by
  have W := C.of_stored he hr hs
  rw [cycle] at W
  refine ⟨_, rfl, rfl, ?_⟩
  cases W with
  | create does => contradiction
  | release does => contradiction
  | @claim b t role does leader stored past available =>
    have key : (f.scene.store.stamped (b.edit (.claim (who e.replica).pod (.utc t)))).key = b.key :=
      Lease.key_edit
    rw [key] at lost ⊢
    rw [C.podOf_eq] at lost ⊢
    have mine := lost b stored
    have before : f.scene.store.leases.get? (b.edit (.claim (who e.replica).pod (.utc t))).key =
        some b := by
      rw [Lease.key_edit]
      exact stored
    refine ⟨b, t, before, rfl, rfl, ?_, mine, ?_⟩
    · rw [Exchange.stored?, hs]
      rfl
    · rw [mine] at available
      obtain ⟨seen, past, available⟩ := available.resolve_left Bool.false_ne_true
      by_cases held : ∃ other, b.isHeldBy other = true
      · obtain ⟨other, held⟩ := held
        obtain ⟨role, conforms⟩ := C.conforms b (C.sound.stored _ _ stored)
        have ne : other ≠ (who e.replica).pod := by
          rintro rfl
          rw [mine] at held
          contradiction
        exact .inl ((Lease.expiredBy_of_available (conforms.isTimed held) held ne available).mono
          past)
      · exact .inr fun other => Bool.eq_false_iff.2 fun own => held ⟨other, own⟩

namespace SinceTaken

section

variable (A : g.IsAttended p who i) (grown : f.toHistory.Grows g.toHistory)
  (named : p.Names .member k.name) (he : g.errands[n]? = some e) (own : e.replica = i)
  (inside : e.inside = some .member)
include A grown named he own inside

/-- What others do while a cycle is inside decides nothing for it. -/
theorem others (S : SinceTaken k i n f g e.rest) (underWay : e.rest.isUnderWay = true)
    (h : g.turn? m = some g') (notGo : m ≠ .go n) (stays : m ≠ .restart i) :
    SinceTaken k i n f g' e.rest := by
  have change := A.sameLease_of_ne h he own inside underWay notGo stays
  have pod := grown.podOf i
  cases S with
  | undecided same taken unclaimed =>
    refine .undecided (same.trans change pod) ?_ ?_
    · rcases quiet_or_call h with quiet | ⟨j, d, c, next, rfl, hd, hr, eq⟩
      · exact taken.quiet quiet
      · rw [eq]
        refine taken.call fun l hs key own' => ?_
        subst key
        rw [← pod] at own'
        exact notGo (congrArg _ (A.eq_of_stored he own inside underWay hd hr hs named
          (isSome_of_isTaken A.toIsClosed taken) own'))
    · rintro ⟨w, hw, rfl, claimed⟩
      rcases quiet_or_call h with quiet | ⟨j, d, c, next, rfl, -, -, eq⟩
      · rw [quiet.same] at hw
        exact unclaimed ⟨w, hw, rfl, claimed⟩
      · rw [eq] at hw
        rcases List.mem_cons.1 hw with rfl | hw
        · exact notGo rfl
        · exact unclaimed ⟨w, hw, rfl, claimed⟩
  | reclaimed same claim =>
    refine .reclaimed (same.trans change pod) ?_
    rcases quiet_or_call h with quiet | ⟨j, d, c, next, -, -, -, eq⟩
    · rw [quiet.same]
      exact claim
    · rw [eq]
      exact exists_newer_call claim
  | lost announced silent => exact .lost (announced.trans change pod) silent

omit named in
/-- What a cycle asks: it may announce that the lease is lost. -/
theorem asked {q : Query} {a : q.Answer} {next : q.Answer → Operation Answer}
    (S : SinceTaken k i n f g e.rest) (held : f.held? i = some k.name) (tells : g.Tells i)
    (rest : e.rest = .ask q next) (answer : g.ask i q = some (a, g'.toHistory)) :
    SinceTaken k i n f g' (next a) := by
  have T := tells n e he own inside
  rw [rest] at T S
  have pod := grown.podOf i
  have quiet := History.quiet_ask answer
  obtain ⟨-, change⟩ := History.tells_of_ask A.present T answer
  -- As long as the lease is held there is nothing to announce but that it is lost.
  have loses : f.toHistory.SameLease i g.toHistory → ∀ (kind : EventKind) lease,
      kind.Fits .lost (g.held? i) lease → kind = .lost ∧ lease = k.name := by
    intro same kind lease fits
    unfold EventKind.Fits at fits
    rw [same.held, held] at fits
    split at fits
    · contradiction
    · exact ⟨fits.1, (Option.some.inj fits.2).symm⟩
  cases S with
  | undecided same taken unclaimed =>
    rcases change with change | ⟨kind, lease, -, fits, silent, announced⟩
    · refine .undecided (same.trans change pod) (taken.quiet quiet) ?_
      rw [History.HasClaimed, quiet.same]
      exact unclaimed
    · obtain ⟨rfl, rfl⟩ := loses same kind lease fits
      exact .lost (same.announced announced grown) silent
  | reclaimed same claim =>
    rcases change with change | ⟨kind, lease, -, fits, silent, announced⟩
    · refine .reclaimed (same.trans change pod) ?_
      rw [quiet.same]
      exact claim
    · obtain ⟨rfl, rfl⟩ := loses same kind lease fits
      exact .lost (same.announced announced grown) silent
  | lost announced silent =>
    rcases change with change | ⟨kind, lease, rfl, -⟩
    · refine .lost (announced.trans change pod) ?_
      cases q with
      | announce kind lease => exact silent.elim
      | _ => exact silent a
    · exact silent.elim

omit named in
/-- What a cycle calls: it may claim the lease anew. -/
theorem called {c : StoreCall} {next : c.Reply → Operation Answer}
    (S : SinceTaken k i n f g e.rest)
    (free : g.IsTaken (f.scene.podOf i) k → ∀ l, g.scene.store.leases.get? k = some l →
      l.isHeldBy (f.scene.podOf i) = false)
    (rest : e.rest = .call c next) (eq : g'.toHistory = g.call i n c) :
    SinceTaken k i n f g' (next (g.reply c)) := by
  have change : g.toHistory.SameLease i g'.toHistory := by
    rw [eq]
    exact ⟨rfl, rfl, rfl⟩
  have pod := grown.podOf i
  rw [rest] at S
  cases S with
  | undecided same taken unclaimed =>
    by_cases writes : ∃ l, c.stored? (g.reply c) = some l ∧ l.key = k
    · obtain ⟨l, hs, rfl⟩ := writes
      have cycle := A.attends.roles n e he own inside
      obtain ⟨newer, hlog⟩ := grown.log
      rw [← pod] at free
      obtain ⟨w, new, mine, reclaims⟩ :=
        exists_reclaims A.toIsClosed he rest hs cycle (own ▸ free (pod ▸ taken))
      rw [own] at new reclaims
      refine .reclaimed (same.trans change pod) ⟨w :: newer, ?_, w, List.mem_cons_self, mine, ?_⟩
      · rw [eq, new, ← hlog]
        rfl
      · rw [← pod]
        exact reclaims
    · refine .undecided (same.trans change pod) ?_ ?_
      · rw [eq]
        exact taken.call fun l hs key => absurd ⟨l, hs, key⟩ writes
      · rw [eq]
        rintro ⟨w, hw, mine, l, hl, key, claimed⟩
        rcases List.mem_cons.1 hw with rfl | hw
        · exact writes ⟨l, hl, key⟩
        · exact unclaimed ⟨w, hw, mine, l, hl, key, claimed⟩
  | reclaimed same claim =>
    refine .reclaimed (same.trans change pod) ?_
    rw [eq]
    exact exists_newer_call claim
  | lost announced silent => exact .lost (announced.trans change pod) (silent _)

end

end SinceTaken

/-- Where a cycle stands whose replica has had its lease taken: as long as it is under way, it is
inside its guard, and it is known what has become of the lease. -/
def StandsSince (k : LeaseKey) (i n : Nat) (f g : Fleet) : Prop :=
  ∃ e, g.errands[n]? = some e ∧ e.replica = i ∧
    (e.rest.isUnderWay = true → e.inside = some .member ∧ SinceTaken k i n f g e.rest)

/-- **A move while a cycle is inside** whose replica has had its lease taken. -/
theorem StandsSince.turn {g' : Fleet} (S : StandsSince k i n f g) (A : g.IsAttended p who i)
    (grown : f.toHistory.Grows g.toHistory) (named : p.Names .member k.name)
    (held : f.held? i = some k.name) (tells : g.Tells i)
    (free : g.IsTaken (f.scene.podOf i) k → ∀ l, g.scene.store.leases.get? k = some l →
      l.isHeldBy (f.scene.podOf i) = false) (h : g.turn? m = some g') :
    StandsSince k i n f g' := by
  obtain ⟨e, he, own, S⟩ := S
  obtain ⟨d, hd, -⟩ := exists_errand_of_turn? h he
  refine ⟨d, hd, ?_⟩
  cases fate_of_turn? h hd with
  | kept before notGo _ stays =>
    obtain rfl := Option.some.inj (he.symm.trans before)
    refine ⟨own, fun underWay => ?_⟩
    obtain ⟨inside, S⟩ := S underWay
    exact ⟨inside, S.others A grown named he own inside underWay h notGo (own ▸ stays)⟩
  | givenUp before =>
    obtain rfl := Option.some.inj (he.symm.trans before)
    refine ⟨own, fun underWay => ?_⟩
    rw [isUnderWay_dropped] at underWay
    contradiction
  | restarted before =>
    obtain rfl := Option.some.inj (he.symm.trans before)
    refine ⟨own, fun underWay => ?_⟩
    rw [isUnderWay_dropped] at underWay
    contradiction
  | @asked _ _ q next a before rest answer =>
    obtain rfl := Option.some.inj (he.symm.trans before)
    refine ⟨own, fun underWay => ?_⟩
    obtain ⟨inside, S⟩ := S (by rw [rest]; rfl)
    rw [own] at answer
    refine ⟨?_, S.asked A grown he own inside held tells rest answer⟩
    -- The cycle has not left its guard, for then it would be over.
    have stage := A.attends.cycles n e he own (A.attends.roles n e he own inside)
    rw [rest, inside] at stage
    change q.inside e.inside a = some .member
    rw [inside]
    clear hd
    cases stage.asking with
    | working meets =>
      have may := (meets _ ⟨.refl _, A.ground⟩).1
      cases q with
      | enter role => exact may.elim
      | leave role => exact may.elim
      | _ => rfl
    | leaving => contradiction
  | stuck _ _ answer => exact absurd answer (History.ask_ne_none A.still)
  | @called _ _ c next before rest eq =>
    obtain rfl := Option.some.inj (he.symm.trans before)
    refine ⟨own, fun underWay => ?_⟩
    obtain ⟨inside, S⟩ := S (by rw [rest]; rfl)
    rw [own] at eq
    exact ⟨inside, S.called A grown he own inside free rest eq⟩
  | begun =>
    rw [List.getElem?_eq_none (Nat.le_refl _)] at he
    contradiction

/-- A replica holds a lease that was taken from its pod, and a member cycle is inside its guard that
has not claimed the lease itself. -/
structure MissesLoss (p : Pool) (i n : Nat) (name : String) (f : Fleet) : Prop where
  held : f.held? i = some name
  taken : f.IsTaken (f.scene.podOf i) ⟨p.ns, name⟩
  inside : ∃ e ∈ f.errands[n]?, e.replica = i ∧ e.inside = some .member
  unclaimed : ¬ f.HasClaimed n (f.scene.podOf i) ⟨p.ns, name⟩

/-- There is a replica, which has been there from the start. -/
theorem MissesLoss.present {start : Fleet} (misses : MissesLoss p i n name f)
    (run : Reaches (Orderly i) start f) : (start.scene.participant? i).isSome = true := by
  have held := misses.held
  rw [← (grows_of_reaches run).participant]
  cases hr : f.scene.replicas[i]? with
  | none => simp [History.held?, hr] at held
  | some r => simp [Scene.participant?, hr]

/-- **From where a loss is missed on**, the cycle stands somewhere. -/
theorem MissesLoss.standsSince {start : Fleet} (misses : MissesLoss p i n name f)
    (pristine : start.IsPristine p) (run : Reaches (Orderly i) start f)
    (later : Reaches (Orderly i) f g) : StandsSince ⟨p.ns, name⟩ i n f g := by
  have present := misses.present run
  obtain ⟨held, taken, ⟨e, he, own, inside⟩, unclaimed⟩ := misses
  have named := (isAttended_of_reaches pristine present run).attends.tidy.named name held
  induction later with
  | refl => exact ⟨e, he, own, fun _ => ⟨inside, .undecided ⟨rfl, rfl, rfl⟩ taken unclaimed⟩⟩
  | tail later turn ih =>
    obtain ⟨m, -, turn⟩ := turn
    have reached := run.trans later
    refine ih.turn (isAttended_of_reaches pristine present reached) (grows_of_reaches later) named
      held (tells_of_reaches pristine present reached) (fun taken l hl => ?_) turn
    exact not_isHeldBy_of_isTaken (fun _ _ orderly => orderly.controlled) pristine.toIsFresh
      reached taken hl

/-- Whether an operation is about to leave a member cycle. -/
def leaves : Operation Answer → Bool
  | .ask (.leave .member) _ => true
  | _ => false

theorem exists_of_leaves {x : Operation Answer} (h : leaves x = true) :
    ∃ next, x = .ask (.leave .member) next := by
  unfold leaves at h
  split at h
  · exact ⟨_, rfl⟩
  · contradiction

/-- A member cycle is about to leave, and all its calls were answered. -/
structure HasWorked (n : Nat) (g : Fleet) : Prop where
  leaves : ∃ d ∈ g.errands[n]?, leaves d.rest = true
  answered : ∀ w ∈ g.log, w.errand = n → w.isAnswered = true

/-- **How a member cycle ends after the lease of its replica was taken**, if all its calls were
answered:
* either it has announced that the lease is lost, and nothing else, and the replica holds none;
* or it has claimed the lease anew, at a time when nobody held it or the claim of whoever did had
  expired; then nothing was announced, and the replica is still bound to the lease.
So the replica learns of its loss for as long as somebody else holds the lease in time. -/
theorem lost_or_reclaimed_of_reaches {start : Fleet} (pristine : start.IsPristine p)
    (run : Reaches (Orderly i) start f) (misses : MissesLoss p i n name f)
    (later : Reaches (Orderly i) f g) (worked : HasWorked n g) :
    (g.held? i = none ∧ g.boundTo? i = none ∧
      g.eventsOf (f.scene.podOf i) =
        { kind := .lost, pool := p.name, pod := f.scene.podOf i, lease := name } ::
          f.eventsOf (f.scene.podOf i)) ∨
    (g.boundTo? i = some name ∧ g.eventsOf (f.scene.podOf i) = f.eventsOf (f.scene.podOf i) ∧
      ∃ newer, g.log = newer ++ f.log ∧
        ∃ w ∈ newer, w.errand = n ∧ w.Reclaims (f.scene.podOf i) ⟨p.ns, name⟩) := by
  have present := misses.present run
  obtain ⟨e, he, own, -⟩ := misses.inside
  obtain ⟨⟨d, hd, leaving⟩, answered⟩ := worked
  obtain ⟨d', hd', own', S⟩ := misses.standsSince pristine run later
  obtain rfl := Option.some.inj (hd.symm.trans hd')
  obtain ⟨next, leaving⟩ := exists_of_leaves leaving
  obtain ⟨-, S⟩ := S (by rw [leaving]; rfl)
  have bound : g.boundTo? i = g.held? i := boundTo?_of_reaches pristine present (run.trans later)
  cases S with
  | undecided same taken unclaimed =>
    -- It would have claimed the lease, or announced that it is lost.
    have attended := isAttended_of_reaches pristine present (run.trans later)
    have claimed :=
      attended.hasClaimed_of_leaving (same.held.trans misses.held) hd own' leaving answered
    rw [(grows_of_reaches later).podOf] at claimed
    exact absurd claimed unclaimed
  | reclaimed same claim =>
    exact .inr ⟨bound.trans (same.held.trans misses.held), same.events, claim⟩
  | lost announced silent =>
    refine .inl ⟨announced.held, announced.bound, ?_⟩
    have A := isAttended_of_reaches pristine present run
    have agrees := A.shared _ (A.mem_participants he)
    rw [own, ← A.participant] at agrees
    rw [announced.events, agrees.2.1]

/-! ## Runs -/

instance (h : History) (n : Nat) (pod : String) (k : LeaseKey) :
    Decidable (h.HasClaimed n pod k) :=
  inferInstanceAs (Decidable (∃ w ∈ h.log, w.errand = n ∧
    ∃ l ∈ w.stored?, l.key = k ∧ l.isHeldBy pod = true))

instance (p : Pool) (i n : Nat) (name : String) (f : Fleet) : Decidable (MissesLoss p i n name f) :=
  decidable_of_iff (f.held? i = some name ∧ f.IsTaken (f.scene.podOf i) ⟨p.ns, name⟩ ∧
      (∃ e ∈ f.errands[n]?, e.replica = i ∧ e.inside = some .member) ∧
      ¬ f.HasClaimed n (f.scene.podOf i) ⟨p.ns, name⟩)
    ⟨fun ⟨a, b, c, d⟩ => ⟨a, b, c, d⟩, fun ⟨a, b, c, d⟩ => ⟨a, b, c, d⟩⟩

instance (n : Nat) (g : Fleet) : Decidable (HasWorked n g) :=
  decidable_of_iff ((∃ d ∈ g.errands[n]?, leaves d.rest = true) ∧
      ∀ w ∈ g.log, w.errand = n → w.isAnswered = true)
    ⟨fun ⟨a, b⟩ => ⟨a, b⟩, fun ⟨a, b⟩ => ⟨a, b⟩⟩

/-- Moves that lead to where a loss is missed, and moves of the cycle from there on. -/
theorem exists_of_missesLoss {start : Fleet} {before after : List Move}
    {property : Fleet → Fleet → Prop} [∀ f g, Decidable (property f g)]
    (h : start.leadsTo isOrderly before (fun f => MissesLoss p i n name f &&
      f.leadsTo isOrderly after fun g => HasWorked n g && property f g) = true) :
    ∃ f g, Reaches (Orderly i) start f ∧ MissesLoss p i n name f ∧ Reaches (Orderly i) f g ∧
      HasWorked n g ∧ property f g := by
  obtain ⟨f, run, h⟩ := exists_of_leadsTo h
  obtain ⟨misses, h⟩ := Bool.and_eq_true_iff.1 h
  obtain ⟨g, later, h⟩ := exists_of_leadsTo h
  obtain ⟨worked, found⟩ := Bool.and_eq_true_iff.1 h
  have sound : ∀ f m, isOrderly f m = true → Orderly i f m := fun _ _ h => orderly_of_isOrderly h i
  exact ⟨f, g, reaches_of_run? sound run, of_decide_eq_true misses, reaches_of_run? sound later,
    of_decide_eq_true worked, of_decide_eq_true found⟩

/-- While the other one holds the lease in time, the next cycle announces that it is lost. -/
theorem lost_of_takeover :
    ∃ f g, Reaches (Orderly 0) (small ⟨0⟩) f ∧ MissesLoss .small 0 3 Pool.smallKey.name f ∧
      Reaches (Orderly 0) f g ∧ HasWorked 3 g ∧ g.boundTo? 0 = none ∧
      g.eventsOf (f.scene.podOf 0) =
        { kind := .lost, pool := "pool", pod := f.scene.podOf 0, lease := Pool.smallKey.name } ::
          f.eventsOf (f.scene.podOf 0) := by
  have leads : (small ⟨0⟩).leadsTo isOrderly (takeover ++ [.begin 0 (.cycle .member), .go 3])
      (fun f => MissesLoss .small 0 3 Pool.smallKey.name f &&
        f.leadsTo isOrderly (Move.goes 3 4) fun g => HasWorked 3 g && g.held? 0 = none) = true := by
    decide +kernel
  obtain ⟨f, g, run, misses, later, worked, free⟩ := exists_of_missesLoss leads
  refine ⟨f, g, run, misses, later, worked, ?_⟩
  rcases lost_or_reclaimed_of_reaches (isPristine_small _) run misses later worked with
    ⟨-, bound, events⟩ | ⟨bound, -⟩
  · exact ⟨bound, events⟩
  · rw [boundTo?_of_reaches (isPristine_small _) rfl (run.trans later), free] at bound
    simp at bound

/-- **Nobody may be told**: when the other one has let its claim expire, and likewise when it has
given the lease up, the next cycle claims the lease anew, and the replica stays bound to it
without any event. -/
theorem reclaimed_silently :
    (∀ t, (small t).IsPristine .small) ∧
    (∃ f g, Reaches (Orderly 0) (small ⟨0⟩) f ∧ MissesLoss .small 0 3 Pool.smallKey.name f ∧
      Reaches (Orderly 0) f g ∧ HasWorked 3 g ∧
      (f.scene.store.leases.get? Pool.smallKey).any (·.isHeldBy "b") = true ∧
      g.boundTo? 0 = some Pool.smallKey.name ∧ g.scene.events = f.scene.events) ∧
    ∃ f g, Reaches (Orderly 0) (small ⟨0⟩) f ∧ MissesLoss .small 0 4 Pool.smallKey.name f ∧
      Reaches (Orderly 0) f g ∧ HasWorked 4 g ∧
      (f.scene.store.leases.get? Pool.smallKey).any (fun l => l.holder? = none) = true ∧
      g.boundTo? 0 = some Pool.smallKey.name ∧ g.scene.events = f.scene.events := by
  refine ⟨isPristine_small, ?_, ?_⟩
  · have leads : (small ⟨0⟩).leadsTo isOrderly
        (takeover ++ [.advance (.ofSeconds 31), .begin 0 (.cycle .member), .go 3])
        (fun f => MissesLoss .small 0 3 Pool.smallKey.name f &&
          f.leadsTo isOrderly (Move.goes 3 5) fun g => HasWorked 3 g &&
            ((f.scene.store.leases.get? Pool.smallKey).any (·.isHeldBy "b") = true ∧
              g.boundTo? 0 = some Pool.smallKey.name ∧ g.scene.events = f.scene.events)) =
        true := by decide +kernel
    exact exists_of_missesLoss leads
  · have leads : (small ⟨0⟩).leadsTo isOrderly
        (takeover ++ [.begin 1 (.release .member)] ++ Move.goes 3 4 ++
          [.begin 0 (.cycle .member), .go 4])
        (fun f => MissesLoss .small 0 4 Pool.smallKey.name f &&
          f.leadsTo isOrderly (Move.goes 4 5) fun g => HasWorked 4 g &&
            ((f.scene.store.leases.get? Pool.smallKey).any (fun l => l.holder? = none) = true ∧
              g.boundTo? 0 = some Pool.smallKey.name ∧ g.scene.events = f.scene.events)) =
        true := by decide +kernel
    exact exists_of_missesLoss leads

end Fleet

end LeasePool
