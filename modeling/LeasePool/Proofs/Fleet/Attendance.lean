import LeasePool.Proofs.Fleet.Stages

/-!
# Member controllers of a fleet

In a closed fleet with distinct pods, whose member controllers release between cycles only, one
member cycle of a replica is inside the guard at most, and its releases are never under way
together with a cycle. So each of them can count on what it has to count on, whatever the
interleaving, and a pod never holds two member leases.
-/

namespace LeasePool

namespace Fleet

/-- What holds of the member controller of a replica at all times. -/
structure Attends (p : Pool) (c : Participant) (i : Nat) (f : Fleet) : Prop where
  tidy : f.IsTidy p c.pod i
  /-- Nobody but a member cycle is inside the guard. -/
  roles : ∀ (n : Nat) (e : Errand), f.errands[n]? = some e → e.replica = i →
    e.inside = some .member → e.job = .cycle .member
  running : ∀ (n : Nat) (e : Errand), f.errands[n]? = some e → e.replica = i →
    e.inside = some .member → f.isRunning i = true
  single : ∀ (n m : Nat) (d e : Errand), f.errands[n]? = some d → f.errands[m]? = some e →
    d.replica = i → e.replica = i → d.inside = some .member → e.inside = some .member → n = m
  apart : ∀ (n m : Nat) (d e : Errand), f.errands[n]? = some d → f.errands[m]? = some e →
    d.replica = i → e.replica = i → d.job = .cycle .member → e.job = .release .member →
    d.rest.isUnderWay = true → e.rest.isUnderWay = false
  cycles : ∀ (n : Nat) (e : Errand), f.errands[n]? = some e → e.replica = i →
    e.job = .cycle .member → Member.Stage p c i n f.toHistory e.inside e.rest
  releases : ∀ (n : Nat) (e : Errand), f.errands[n]? = some e → e.replica = i →
    e.job = .release .member → e.rest.isUnderWay = true →
    e.rest.Meets (Member.terms p c.pod i n (.release .member)) (fun _ _ => True) f.toHistory

/-- A closed fleet with distinct pods, one of whose member controllers keeps to its terms. -/
structure IsAttended (p : Pool) (who : Nat → Participant) (i : Nat) (f : Fleet) : Prop
    extends f.IsClosed p who where
  distinct : (f.participants.map (·.pod)).Nodup
  present : (f.scene.participant? i).isSome = true
  attends : f.Attends p (who i) i

variable {f g : Fleet} {m : Move} {p : Pool} {who : Nat → Participant} {i n : Nat} {e : Errand}

/-! ## The beginning -/

theorem IsPristine.isAttended (h : f.IsPristine p)
    (present : (f.scene.participant? i).isSome = true) :
    f.IsAttended p f.scene.participantOf i where
  toIsClosed := h.toIsFresh.isClosed
  distinct := h.distinct
  present := present
  attends := by
    have none_ : ∀ (n : Nat) (e : Errand), f.errands[n]? ≠ some e := by simp [h.errands]
    have empty : ∀ l, ¬ f.toHistory.Holds p (f.scene.participantOf i).pod l := by
      intro l hl
      have stored := hl.stored
      rw [h.empty] at stored
      contradiction
    refine ⟨⟨fun l _ hl => absurd hl (empty l), ?_, fun _ _ l hl => absurd hl (empty l)⟩,
      fun n e he => absurd he (none_ n e), fun n e he => absurd he (none_ n e),
      fun n _ d _ hd => absurd hd (none_ n d), fun n _ d _ hd => absurd hd (none_ n d),
      fun n e he => absurd he (none_ n e), fun n e he => absurd he (none_ n e)⟩
    intro name hname
    cases hr : f.scene.replicas[i]? with
    | none => simp [History.held?, hr] at hname
    | some r =>
      rw [History.held?, hr, ← h.idle r (List.mem_of_getElem? hr)] at hname
      contradiction

/-! ## Errands -/

/-- Whoever is given up has nothing more to do. -/
theorem isUnderWay_dropped : e.dropped.rest.isUnderWay = false := by
  cases hr : e.rest <;> simp [Errand.dropped, Operation.dropped, hr, Operation.isUnderWay]

/-- The history after an errand has asked its process. -/
theorem history_of_ask {q : Query} {next : q.Answer → Operation Answer}
    (h : f.turn? (.go n) = some g) (still : f.scene.ticking = false)
    (he : f.errands[n]? = some e) (hr : e.rest = .ask q next) :
    ∃ a, f.ask e.replica q = some (a, g.toHistory) := by
  simp only [turn?, he, Option.bind_some, go?, hr] at h
  cases answer : f.ask e.replica q with
  | none => exact absurd answer (History.ask_ne_none still)
  | some k =>
    rw [answer] at h
    obtain rfl := Option.some.inj h
    exact ⟨_, rfl⟩

/-- The history after an errand has called the store. -/
theorem history_of_call {c : StoreCall} {next : c.Reply → Operation Answer}
    (h : f.turn? (.go n) = some g) (he : f.errands[n]? = some e) (hr : e.rest = .call c next) :
    g.toHistory = f.call e.replica n c := by
  simp only [turn?, he, Option.bind_some, go?, hr] at h
  obtain rfl := Option.some.inj h
  rfl

/-- Who is inside the guard of a member controller after a move was inside before, or the guard
was free. -/
theorem inside_before (hi : (f.scene.participant? i).isSome = true) (h : f.turn? m = some g)
    (he : g.errands[n]? = some e) (own : e.replica = i) (inside : e.inside = some .member) :
    (∃ d, f.errands[n]? = some d ∧ d.replica = i ∧ d.inside = some .member) ∨
      m = .go n ∧ f.isRunning i = false := by
  subst own
  obtain ⟨c, hc⟩ := Option.isSome_iff_exists.1 hi
  obtain ⟨r, hr, -⟩ := Option.map_eq_some_iff.1 hc
  cases fate_of_turn? h he with
  | kept before => exact .inl ⟨e, before, rfl, inside⟩
  | givenUp => contradiction
  | restarted => contradiction
  | @asked _ d q next a before rest answer =>
    cases q with
    | enter role =>
      cases a with
      | false => exact .inl ⟨d, before, rfl, inside⟩
      | true =>
        obtain rfl : role = .member := Option.some.inj inside
        obtain ⟨entered, -, -⟩ := History.memory_enter answer hr
        exact .inr ⟨rfl, by simpa using entered.symm⟩
    | leave role => contradiction
    | _ => exact .inl ⟨d, before, rfl, inside⟩
  | stuck before => exact .inl ⟨_, before, rfl, inside⟩
  | called before => exact .inl ⟨_, before, rfl, inside⟩
  | begun => contradiction

/-- Who is under way after a move was so before, or has just begun. -/
theorem underWay_before (h : f.turn? m = some g) (he : g.errands[n]? = some e)
    (underWay : e.rest.isUnderWay = true) :
    (∃ d, f.errands[n]? = some d ∧ d.replica = e.replica ∧ d.job = e.job ∧
      d.rest.isUnderWay = true) ∨ m = .begin e.replica e.job ∧ n = f.errands.length := by
  cases fate_of_turn? h he with
  | kept before => exact .inl ⟨e, before, rfl, rfl, underWay⟩
  | givenUp =>
    rw [isUnderWay_dropped] at underWay
    contradiction
  | restarted =>
    rw [isUnderWay_dropped] at underWay
    contradiction
  | asked before rest => exact .inl ⟨_, before, rfl, rfl, by rw [rest]; rfl⟩
  | stuck before rest => exact .inl ⟨_, before, rfl, rfl, by rw [rest]; rfl⟩
  | called before rest => exact .inl ⟨_, before, rfl, rfl, by rw [rest]; rfl⟩
  | begun => exact .inr ⟨rfl, rfl⟩

/-! ## One move -/

namespace IsAttended

variable (A : f.IsAttended p who i)
include A

theorem ground : Member.Ground p (who i).pod i f.toHistory where
  sound := A.sound
  still := A.still
  conforms := A.conforms
  own := A.podOf_eq
  tidy := A.attends.tidy

/-- What the member controller of a replica announces is true. -/
theorem mayAnnounce {kind : EventKind} {lease : String} {next : Unit → Operation Answer}
    (he : f.errands[n]? = some e) (own : e.replica = i)
    (hr : e.rest = .ask (.announce kind lease) next) :
    Member.MayAsk p (who i).pod i e.job f.toHistory (.announce kind lease) ∧
      (e.job = .cycle .member ∧ e.inside = some .member ∨ e.job = .release .member) := by
  subst own
  have T := A.attends
  have permits := A.permits he hr
  rcases Job.announces_of_controller (A.jobs n e he) permits with cycle | release
  · have S := T.cycles n e he rfl cycle
    rw [hr] at S
    rw [cycle]
    exact ⟨S.mayAnnounce A.ground, .inl ⟨rfl, S.inside_of_ask (by simp)⟩⟩
  · have M := T.releases n e he rfl release (by rw [hr]; rfl)
    rw [hr] at M
    rw [release]
    exact ⟨(M _ ⟨.refl _, A.ground⟩).1, .inr rfl⟩

/-- Only one errand of a member controller goes on at a time, be it a cycle inside the guard or a
release, or all of them are releases. -/
theorem rely_of_ne (h : f.turn? m = some g) (he : f.errands[n]? = some e) (own : e.replica = i)
    (other : m ≠ .go n)
    (does : e.job = .cycle .member ∧ e.inside = some .member ∨ e.job = .release .member)
    (underWay : e.rest.isUnderWay = true) :
    Member.Rely p (who i).pod i e.job f.toHistory g.toHistory := by
  have T := A.attends
  -- No member cycle of the replica is about to ask or to call inside the guard.
  have idle : ∀ k (d : Errand), m = .go k → f.errands[k]? = some d → d.replica = i →
      d.job = .cycle .member → d.inside = some .member → d.rest.isUnderWay = false := by
    intro k d hm hd mine cycle inside
    rcases does with ⟨-, inside'⟩ | release
    · have same := T.single k n d e hd he mine own inside inside'
      exact absurd (same ▸ hm) other
    · cases goes : d.rest.isUnderWay with
      | false => rfl
      | true =>
        rw [T.apart k n d e hd he mine own cycle release goes] at underWay
        contradiction
  rw [← A.podOf_eq]
  refine A.rely A.distinct A.present e.job h ?_
    fun k d c next hm hd mine hr => ⟨?_, ?_⟩
  · intro k d name next hm hd mine hr
    obtain ⟨may, ⟨cycle, inside⟩ | release⟩ := A.mayAnnounce hd mine hr
    · have ended := idle k d hm hd mine cycle inside
      rw [hr] at ended
      contradiction
    · rw [release] at may
      exact absurd may.1 (by simp)
  · intro cycle
    have S := T.cycles k d hd mine cycle
    rw [hr] at S
    have ended := idle k d hm hd mine cycle S.calling.1
    rw [hr] at ended
    contradiction
  · intro release cycle
    have ended := T.apart n k e d he hd own mine cycle release underWay
    rw [hr] at ended
    contradiction

/-- **A move keeps the memory of a replica tidy.** -/
theorem tidy_turn (h : f.turn? m = some g) : g.IsTidy p (who i).pod i := by
  have T := A.attends
  have G := A.ground
  by_cases announces : ∃ n e kind lease next, m = .go n ∧ f.errands[n]? = some e ∧
      e.replica = i ∧ e.rest = .ask (.announce kind lease) next
  · obtain ⟨n, e, kind, lease, next, rfl, he, rfl, hr⟩ := announces
    obtain ⟨a, answer⟩ := history_of_ask h A.still he hr
    exact Member.tidy_announce (A.mayAnnounce he rfl hr).1 T.tidy answer
  by_cases calls : ∃ n e c next, m = .go n ∧ f.errands[n]? = some e ∧ e.replica = i ∧
      e.job = .cycle .member ∧ e.rest = .call c next
  · obtain ⟨n, e, c, next, rfl, he, rfl, cycle, hr⟩ := calls
    have S := T.cycles n e he rfl cycle
    rw [hr] at S
    rw [history_of_call h he hr]
    exact S.tidy_call G
  -- All else is within what a release could count on, and so the pod gains no lease.
  have R := A.rely A.distinct A.present (.release .member) h
    (fun n e name next hm he mine hr =>
      announces ⟨n, e, .acquired, name, next, hm, he, mine, hr⟩)
    fun n e c next hm he mine hr =>
      ⟨fun cycle => calls ⟨n, e, c, next, hm, he, mine, cycle, hr⟩, fun _ => by simp⟩
  rw [A.podOf_eq] at R
  exact T.tidy.mono R.holds R.held

/-- The guard is closed while a member cycle is inside. -/
theorem running_turn (h : f.turn? m = some g) (he : g.errands[n]? = some e) (own : e.replica = i)
    (inside : e.inside = some .member) : g.isRunning i = true := by
  have T := A.attends
  subst own
  obtain ⟨c, hc⟩ := Option.isSome_iff_exists.1 A.present
  obtain ⟨r, hr, -⟩ := Option.map_eq_some_iff.1 hc
  cases fate_of_turn? h he with
  | kept before notGo notGivenUp notRestarted =>
    have running := T.running n e before rfl inside
    cases A.memory A.distinct A.present h with
    | same same => rw [same.running, running]
    | announced _ _ _ _ _ same => rw [same, running]
    | entered _ _ _ _ entered => exact entered
    | @left k d next hd own rest =>
      -- Whoever leaves is inside, and that is this one.
      have permits : (d.job.warrant (who d.replica)).enters .member := A.permits hd rest
      have cycle := Job.enters_of_controller (A.jobs k d hd) permits
      have S := T.cycles k d hd own cycle
      rw [rest] at S
      have there : d.inside = some .member := S.inside_of_ask (by simp)
      exact absurd (T.single k n d e hd before own rfl there inside ▸ rfl) notGo
    | @abandoned k d hd own there =>
      exact absurd (T.single k n d e hd before own rfl there inside ▸ rfl) notGivenUp
    | restarted => exact absurd rfl notRestarted
  | givenUp => contradiction
  | restarted => contradiction
  | @asked _ d q next a before rest answer =>
    cases q with
    | enter role =>
      cases a with
      | false =>
        have running := T.running n d before rfl inside
        cases role with
        | leader => rw [(History.sameMemory_of_isHarmless answer rfl).running, running]
        | member => exact (History.memory_enter answer hr).2.2
      | true =>
        obtain rfl : role = .member := Option.some.inj inside
        exact (History.memory_enter answer hr).2.2
    | leave role => contradiction
    | announce kind lease =>
      rw [(History.memory_announce answer hr).2.2]
      exact T.running n d before rfl inside
    | _ =>
      rw [(History.sameMemory_of_isHarmless answer rfl).running]
      exact T.running n d before rfl inside
  | stuck _ _ answer => exact absurd answer (History.ask_ne_none A.still)
  | @called _ d c next before rest same =>
    rw [same]
    exact T.running n d before rfl inside
  | begun => contradiction

/-- A member cycle goes from stage to stage. -/
theorem stage_turn (h : f.turn? m = some g) (he : g.errands[n]? = some e) (own : e.replica = i)
    (cycle : e.job = .cycle .member) : Member.Stage p (who i) i n g.toHistory e.inside e.rest := by
  have T := A.attends
  have G := A.ground
  subst own
  have agrees : ∀ k (d : Errand), f.errands[k]? = some d →
      (who d.replica).pool.Agrees p ∧ Text.isBlankText (who d.replica).pod = false :=
    fun k d hd => ⟨A.shared _ (A.mem_participants hd), A.named _ (A.mem_participants hd)⟩
  cases fate_of_turn? h he with
  | kept before notGo =>
    exact (T.cycles n e before rfl cycle).later fun inside underWay =>
      cycle ▸ A.rely_of_ne h before rfl notGo (.inl ⟨cycle, inside⟩) underWay
  | givenUp => exact .after isUnderWay_dropped
  | restarted => exact .after isUnderWay_dropped
  | @asked _ d q next a before rest answer =>
    have S := T.cycles n d before rfl cycle
    rw [rest] at S
    exact S.asked G (agrees n d before).1 (agrees n d before).2 answer
  | stuck _ _ answer => exact absurd answer (History.ask_ne_none A.still)
  | @called _ d c next before rest same =>
    have S := T.cycles n d before rfl cycle
    rw [rest] at S
    rw [same]
    exact S.called G
  | @begun k job r replica =>
    obtain rfl : job = .cycle .member := cycle
    rw [A.participant_of_replica replica]
    exact .before

/-- A release by a member controller keeps to its terms. -/
theorem releases_turn (h : f.turn? m = some g) (he : g.errands[n]? = some e) (own : e.replica = i)
    (release : e.job = .release .member) (underWay : e.rest.isUnderWay = true) :
    e.rest.Meets (Member.terms p (who i).pod i n (.release .member)) (fun _ _ => True)
      g.toHistory := by
  have T := A.attends
  have G := A.ground
  subst own
  cases fate_of_turn? h he with
  | kept before notGo =>
    have R := A.rely_of_ne h before rfl notGo (.inr release) underWay
    rw [release] at R
    exact (T.releases n e before rfl release underWay).later R
  | givenUp =>
    rw [isUnderWay_dropped] at underWay
    contradiction
  | restarted =>
    rw [isUnderWay_dropped] at underWay
    contradiction
  | @asked _ d q next a before rest answer =>
    have M := T.releases n d before rfl release (by rw [rest]; rfl)
    rw [rest] at M
    exact (M _ ⟨.refl _, G⟩).2 a g.toHistory answer
  | stuck _ _ answer => exact absurd answer (History.ask_ne_none A.still)
  | @called _ d c next before rest same =>
    have M := T.releases n d before rfl release (by rw [rest]; rfl)
    rw [rest] at M
    rw [same]
    exact (M _ ⟨.refl _, G⟩).2
  | @begun k job r replica =>
    have agrees := A.shared _ (List.mem_map_of_mem (List.mem_of_getElem? replica))
    obtain rfl : job = .release .member := release
    rw [A.participant_of_replica replica] at agrees ⊢
    exact Operation.meets_bind ((Member.meets_releaseMember agrees rfl).weaken
      fun _ _ _ _ _ => trivial)

/-- The job of an errand stays the same, and only member cycles are let in. -/
theorem roles_turn (h : f.turn? m = some g) (he : g.errands[n]? = some e) (own : e.replica = i)
    (inside : e.inside = some .member) : e.job = .cycle .member := by
  have T := A.attends
  cases fate_of_turn? h he with
  | kept before => exact T.roles n e before own inside
  | givenUp => contradiction
  | restarted => contradiction
  | @asked _ d q next a before rest =>
    cases q with
    | enter role =>
      cases a with
      | false => exact T.roles n d before own inside
      | true =>
        obtain rfl : role = .member := Option.some.inj inside
        have permits : (d.job.warrant (who d.replica)).enters .member := A.permits before rest
        exact Job.enters_of_controller (A.jobs n d before) permits
    | leave role => contradiction
    | _ => exact T.roles n d before own inside
  | @stuck _ d _ _ before => exact T.roles n d before own inside
  | @called _ d _ _ before => exact T.roles n d before own inside
  | begun => contradiction

/-- The guard lets one member cycle in at a time. -/
theorem single_turn {k : Nat} {d : Errand} (h : f.turn? m = some g)
    (hd : g.errands[n]? = some d) (he : g.errands[k]? = some e) (mine : d.replica = i)
    (own : e.replica = i) (inside : d.inside = some .member) (inside' : e.inside = some .member) :
    n = k := by
  have T := A.attends
  rcases inside_before A.present h hd mine inside with ⟨d', hd', mine', was⟩ | ⟨rfl, free⟩
  · rcases inside_before A.present h he own inside' with ⟨e', he', own', was'⟩ | ⟨rfl, free⟩
    · exact T.single n k d' e' hd' he' mine' own' was was'
    · rw [T.running n d' hd' mine' was] at free
      contradiction
  · rcases inside_before A.present h he own inside' with ⟨e', he', own', was'⟩ | ⟨go, -⟩
    · rw [T.running k e' he' own' was'] at free
      contradiction
    · exact Move.go.inj go

/-- Cycles and releases are not under way together, since none begins while the other is. -/
theorem apart_turn {k : Nat} {d : Errand} (h : f.turn? m = some g) (orderly : f.Orderly i m)
    (hd : g.errands[n]? = some d) (he : g.errands[k]? = some e) (mine : d.replica = i)
    (own : e.replica = i) (cycle : d.job = .cycle .member) (release : e.job = .release .member)
    (underWay : d.rest.isUnderWay = true) : e.rest.isUnderWay = false := by
  have T := A.attends
  cases goes : e.rest.isUnderWay with
  | false => rfl
  | true =>
    rcases underWay_before h hd underWay with ⟨d', hd', r, j, was⟩ | ⟨begins, -⟩
    · rcases underWay_before h he goes with ⟨e', he', r', j', was'⟩ | ⟨begins, -⟩
      · rw [T.apart n k d' e' hd' he' (r.trans mine) (r'.trans own) (j.trans cycle)
          (j'.trans release) was] at was'
        contradiction
      · rw [orderly.apart e.job (own ▸ begins) n d' hd' (r.trans mine)
          (by rw [j, cycle, release]; rfl)] at was
        contradiction
    · rcases underWay_before h he goes with ⟨e', he', r', j', was'⟩ | ⟨begins', -⟩
      · rw [orderly.apart d.job (mine ▸ begins) k e' he' (r'.trans own)
          (by rw [j', cycle, release]; rfl)] at was'
        contradiction
      · rw [begins] at begins'
        have same : d.job = e.job := (Move.begin.inj begins').2
        rw [cycle, release] at same
        contradiction

/-- **A move keeps a member controller attended.** -/
theorem attends_turn (h : f.turn? m = some g) (orderly : f.Orderly i m) :
    g.Attends p (who i) i where
  tidy := A.tidy_turn h
  roles := fun _ _ => A.roles_turn h
  running := fun _ _ => A.running_turn h
  single := fun _ _ _ _ => A.single_turn h
  apart := fun _ _ _ _ => A.apart_turn h orderly
  cycles := fun _ _ => A.stage_turn h
  releases := fun _ _ => A.releases_turn h

end IsAttended

/-- A move keeps a fleet attended. -/
theorem IsAttended.turn (A : f.IsAttended p who i) (h : f.turn? m = some g)
    (orderly : f.Orderly i m) : g.IsAttended p who i where
  toIsClosed := A.toIsClosed.turn h orderly.controlled
  distinct := by
    rw [participants_eq_of_grows (grows_of_turn? h)]
    exact A.distinct
  present := by rw [(grows_of_turn? h).participant, A.present]
  attends := A.attends_turn h orderly

/-- **A member controller keeps to its terms**, whatever the interleaving. -/
theorem isAttended_of_reaches (pristine : f.IsPristine p)
    (present : (f.scene.participant? i).isSome = true) (run : Reaches (Orderly i) f g) :
    g.IsAttended p f.scene.participantOf i := by
  induction run with
  | refl => exact pristine.isAttended present
  | tail _ turn ih =>
    obtain ⟨m, orderly, turn⟩ := turn
    exact ih.turn turn orderly

/-- **A pod holds one member lease at most.** In a closed fleet with distinct pods, whatever its
controllers do in whatever order, with crashes, restarts, outages and changes of scale, as long as
releases are made between cycles:
* of the stored member leases of the pool one at most has a given pod for its holder;
* when a member controller holds a lease, its pod is the holder of no other member lease. -/
theorem holds_one_of_reaches (pristine : f.IsPristine p)
    (run : Reaches (fun h m => ∀ i, h.Orderly i m) f g) :
    (∀ pod l m, g.Holds p pod l → g.Holds p pod m → l = m) ∧
    ∀ i name, g.held? i = some name → ∀ l, g.Holds p (g.scene.podOf i) l → l.name = name := by
  have attended : ∀ {i}, (g.scene.participant? i).isSome = true →
      g.IsAttended p f.scene.participantOf i := fun {i} hi => by
    rw [(grows_of_reaches run).participant] at hi
    exact isAttended_of_reaches pristine hi (reaches_mono (fun _ _ orderly => orderly i) run)
  have C := isClosed_of_reaches (fun _ _ orderly => (orderly 0).controlled) pristine.toIsFresh run
  refine ⟨?_, ?_⟩
  · intro pod l m hl hm
    obtain ⟨i, hi, own⟩ := holder_of_reaches (fun _ _ orderly => (orderly 0).controlled)
      pristine.toIsFresh run l (C.sound.stored _ _ hl.stored) pod hl.held
    rw [← own, C.podOf_eq] at hl hm
    exact (attended hi).attends.tidy.single l m hl hm
  · intro i name hname l hl
    have hi : (g.scene.participant? i).isSome = true := by
      cases hr : g.scene.replicas[i]? with
      | none => simp [History.held?, hr] at hname
      | some r => simp [Scene.participant?, hr]
    rw [C.podOf_eq] at hl
    exact (attended hi).attends.tidy.known name hname l hl

/-- A process crashes when it has claimed the member lease and not noted it yet, somebody else
looks for a lease in vain, and the process that has been started anew claims the lease again. -/
def comeback : List Move :=
  [.begin 0 (.cycle .leader)] ++ Move.goes 0 10 ++ [.begin 0 (.cycle .member)] ++ Move.goes 1 6 ++
    [.restart 0, .begin 1 (.cycle .member)] ++ Move.goes 2 5 ++ [.begin 0 (.cycle .member)] ++
    Move.goes 3 7

/-- It holds that lease, and no other one. -/
theorem holds_one_of_comeback :
    ∃ g l, Reaches (fun h m => ∀ i, h.Orderly i m) (small ⟨0⟩) g ∧
      g.held? 0 = some Pool.smallKey.name ∧
      g.Holds .small "a" l ∧ (∀ m, g.Holds .small "a" m → l = m) ∧
      ∀ m, g.Holds .small (g.scene.podOf 0) m → m.name = Pool.smallKey.name := by
  have leads : (small ⟨0⟩).leadsTo isOrderly comeback (fun g =>
      g.held? 0 = some Pool.smallKey.name && (g.scene.store.leases.get? Pool.smallKey).any fun l =>
        l.key = Pool.smallKey && l.isHeldBy "a") = true := by decide +kernel
  obtain ⟨g, run, found⟩ := exists_of_leadsTo leads
  obtain ⟨held, stored⟩ := Bool.and_eq_true_iff.1 found
  obtain ⟨l, hl, own⟩ := (Option.any_eq_true _ _).1 stored
  obtain ⟨key, mine⟩ := Bool.and_eq_true_iff.1 own
  have key : l.key = Pool.smallKey := of_decide_eq_true key
  have holds : g.Holds .small "a" l := ⟨key ▸ hl, mine, 0, congrArg LeaseKey.name key⟩
  have reached : Reaches (fun h m => ∀ i, h.Orderly i m) (small ⟨0⟩) g :=
    reaches_of_run? (fun _ _ => orderly_of_isOrderly) run
  obtain ⟨single, known⟩ := holds_one_of_reaches (isPristine_small _) reached
  exact ⟨g, l, reached, of_decide_eq_true held, holds, fun m => single "a" l m holds,
    known 0 _ (of_decide_eq_true held)⟩

end Fleet

end LeasePool
