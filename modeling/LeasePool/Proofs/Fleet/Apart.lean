import LeasePool.Proofs.Fleet.Membership
import LeasePool.Proofs.Fleet.Shadows

/-!
# Pools do not interfere

Replicas of any number of pools over one store without leases that nobody else writes, doing
nothing but the cycles and the releases of their controllers, in any interleaving. Every replica
writes leases of its own pool only. So those of a pool are, up to versions and identifiers, what
they would be if the replicas of all other pools had done nothing.
-/

namespace LeasePool

namespace Fleet

/-- A fleet after a move, or as it is if there is no move. -/
def after? (f : Fleet) : Option Move → Option Fleet
  | none => some f
  | some m => f.turn? m

/-- What holds of replicas of many pools that only their controllers move. -/
structure IsParted (who : Nat → Participant) (f : Fleet) : Prop where
  still : f.scene.ticking = false
  participant : ∀ i, f.scene.participantOf i = who i
  orderly : f.scene.store.IsOrderly
  /-- What a process holds is a member lease of its pool. -/
  held : ∀ i lease, f.held? i = some lease → Role.member.Names (who i).pool.name lease
  /-- All that was to be written is leases of the pool of the replica. -/
  log : ∀ x ∈ f.log, ∃ e, f.errands[x.errand]? = some e ∧
    ∀ l, x.call.written? = some l → ∃ role, l.IsOf (who e.replica).pool.home role
  /-- What the replicas of a pool do, they could do without all others. -/
  shadowed : ∀ a, ∃ f' t, f.Shadows who a t f'

variable {who : Nat → Participant} {a : Home} {t : Tally} {f f' g : Fleet} {m : Move} {n : Nat}
  {e : Errand}

/-- A replica takes part in its own pool. -/
theorem isAtHome_self {i : Nat} : isAtHome who (who i).pool.home i = true := by simp [isAtHome]

/-- Whatever an errand is about to write is a lease of the pool of its replica. -/
theorem IsParted.isOf_of_written (D : f.IsParted who) {c : StoreCall}
    {next : c.Reply → Operation Answer} {l : Lease} (he : f.errands[n]? = some e)
    (hr : e.rest = .call c next) (written : c.written? = some l) :
    ∃ role, l.IsOf (who e.replica).pool.home role := by
  obtain ⟨f', t, S⟩ := D.shadowed (who e.replica).pool.home
  obtain ⟨e', -, related⟩ := S.errand he isAtHome_self
  have rest := related.rest
  rw [hr] at rest
  exact rest.isOf_of_written written

/-- Whatever an errand is about to announce is about a member lease of the pool. -/
theorem IsParted.permits (D : f.IsParted who) {q : Query} {next : q.Answer → Operation Answer}
    (he : f.errands[n]? = some e) (hr : e.rest = .ask q next) :
    (who e.replica).pool.home.Permits q := by
  obtain ⟨f', t, S⟩ := D.shadowed (who e.replica).pool.home
  obtain ⟨e', -, related⟩ := S.errand he isAtHome_self
  have rest := related.rest
  rw [hr] at rest
  generalize e'.rest = y at rest
  cases rest with
  | ask permitted => exact permitted

/-- What a process answers about the lease that it holds. -/
theorem IsParted.admits (D : f.IsParted who) {i : Nat} {q : Query} {x : q.Answer} {h : History}
    (answer : f.ask i q = some (x, h)) : (who i).pool.home.Admits q x := by
  cases q with
  | heldLease =>
    cases answer
    exact fun lease held => D.held i lease held
  | _ => trivial

/-! ## A move of a replica of the pool -/

/-- An errand begins. -/
theorem Shadows.begin (D : f.IsParted who) (S : f.Shadows who a t f') {i : Nat} {job : Job}
    {r : Replica} (hr : f.scene.replicas[i]? = some r) (controls : job.isOfController = true)
    (own : isAtHome who a i = true) :
    ∃ g', f'.turn? (.begin i job) = some g' ∧
      Shadows who a t { f with
        errands := f.errands ++
          [{ replica := i, job, rest := job.operation r.participant }] } g' := by
  have participant : r.participant = who i := by
    rw [← D.participant i, Scene.participantOf, Scene.participant?, hr]
    rfl
  have home : r.participant.pool.home = a := by
    rw [participant]
    exact of_decide_eq_true own
  have hr' : f'.scene.replicas[i]? = some r := (S.shares.replica i own).trans hr
  refine ⟨_, (Change.begin hr').turn?, S.shares, S.still, S.store, ?_⟩
  simp only [List.filter_append, List.filter_singleton, own, cond_true]
  refine List.rel_append S.errands (.cons ⟨rfl, rfl, ?_⟩ .nil)
  exact home ▸ Job.matches_operation controls

/-- An errand asks its process. -/
theorem Shadows.ask (D : f.IsParted who) (S : f.Shadows who a t f') {q : Query}
    {next : q.Answer → Operation Answer} {x : q.Answer} {h : History}
    (he : f.errands[n]? = some e) (hr : e.rest = .ask q next)
    (answer : f.ask e.replica q = some (x, h)) (own : isAtHome who a e.replica = true) :
    ∃ g', f'.turn? (.go (Move.place (isAtHome who a) (f.errands.map (·.replica)) n)) = some g' ∧
      (f.setErrand h n { e with inside := q.inside e.inside x, rest := next x }).Shadows who a t
        g' := by
  have home : (who e.replica).pool.home = a := of_decide_eq_true own
  obtain ⟨e', he', related⟩ := S.errand he own
  obtain ⟨⟨x', scene⟩, asked, same⟩ := Option.map_eq_some_iff.1 answer
  cases same
  obtain ⟨scene', asked', shares⟩ := S.shares.ask own D.still S.still asked
  have rest := related.rest
  rw [hr] at rest
  generalize hr' : e'.rest = y at rest
  cases rest with
  | @ask _ _ _ next' permitted follows =>
    have answer' : f'.ask e'.replica q = some (x, { f'.toHistory with scene := scene' }) := by
      rw [related.replica, History.ask, asked']
      rfl
    refine ⟨_, (Change.ask he' hr' answer').turn?, ?_⟩
    refine ⟨shares, (Scene.frame_ask asked').ticking.trans S.still, ?_, ?_⟩
    · have store := (Scene.frame_ask asked).store
      have store' := (Scene.frame_ask asked').store
      change scene.store.Mirrors a t scene'.store
      rw [store, store']
      exact S.store
    · refine S.setErrand le_rfl he own rfl ⟨related.replica, ?_, ?_⟩
      · rw [related.inside]
      · exact follows x (home ▸ D.admits answer)

/-- An errand calls the store. -/
theorem Shadows.call (D : f.IsParted who) (S : f.Shadows who a t f') {c : StoreCall}
    {next : c.Reply → Operation Answer} (he : f.errands[n]? = some e) (hr : e.rest = .call c next)
    (own : isAtHome who a e.replica = true) :
    ∃ g' u, f'.turn? (.go (Move.place (isAtHome who a) (f.errands.map (·.replica)) n)) = some g' ∧
      (f.setErrand (f.call e.replica n c) n { e with rest := next (f.reply c) }).Shadows who a u
        g' := by
  obtain ⟨e', he', related⟩ := S.errand he own
  have rest := related.rest
  rw [hr] at rest
  obtain ⟨c', next', u, hr', le, store, follows⟩ := rest.call S.store D.orderly
  refine ⟨_, u, (Change.call he' hr').turn?, ?_⟩
  refine ⟨⟨S.shares.clock, S.shares.participant, S.shares.replica⟩, S.still, store, ?_⟩
  exact S.setErrand le he own rfl ⟨related.replica, related.inside, follows⟩

/-- An errand is given up. -/
theorem Shadows.giveUp (S : f.Shadows who a t f') (he : f.errands[n]? = some e)
    (own : isAtHome who a e.replica = true) :
    ∃ g', f'.turn? (.giveUp (Move.place (isAtHome who a) (f.errands.map (·.replica)) n)) =
        some g' ∧
      (f.setErrand { f.toHistory with scene := f.scene.abandon e.replica e.inside } n
        e.dropped).Shadows who a t g' := by
  obtain ⟨e', he', related⟩ := S.errand he own
  refine ⟨_, (Change.giveUp he').turn?, ?_, ?_, ?_, ?_⟩
  · rw [related.replica, related.inside]
    exact S.shares.abandon e.replica e.inside
  · exact Scene.frame_abandon.ticking.trans S.still
  · change (f.scene.abandon e.replica e.inside).store.Mirrors a t
      (f'.scene.abandon e'.replica e'.inside).store
    rw [Scene.frame_abandon.store, Scene.frame_abandon.store]
    exact S.store
  · exact S.setErrand le_rfl he own rfl related.dropped

/-- A replica restarts. -/
theorem Shadows.restart (S : f.Shadows who a t f') {i : Nat} :
    ∃ g', f'.turn? (.restart i) = some g' ∧
      Shadows who a t { f with
        scene := f.scene.modifyReplica i Replica.restarted
        errands := f.errands.map fun e => if e.replica = i then e.dropped else e } g' := by
  refine ⟨_, Change.restart.turn?, ?_, S.still, S.store, ?_⟩
  · exact S.shares.modify (g := Replica.restarted) (fun _ => rfl) rfl rfl rfl rfl
  rw [filter_dropped, List.forall₂_map_left_iff, List.forall₂_map_right_iff]
  refine S.errands.imp ?_
  intro e e' related
  rw [related.replica]
  split
  · exact related.dropped
  · exact related

/-! ## A move of somebody else -/

/-- What an errand of another pool asks, or what becomes of it otherwise, does not show. -/
theorem Shadows.of_others (S : f.Shadows who a t f') (he : f.errands[n]? = some e)
    (other : ¬ isAtHome who a e.replica = true) {h : History} {d : Errand}
    (same : d.replica = e.replica) (shares : h.scene.Shares (isAtHome who a) f'.scene)
    (store : h.scene.store.Mirrors a t f'.scene.store) :
    (f.setErrand h n d).Shadows who a t f' := by
  refine ⟨shares, S.still, store, ?_⟩
  change List.Forall₂ _ ((f.errands.set n d).filter fun e => isAtHome who a e.replica) _
  rw [filter_set_of_not he other (by rw [same]; exact other)]
  exact S.errands

/-- What an errand of another pool writes is none of the leases of the pool. -/
theorem IsParted.not_owns (D : f.IsParted who) {c : StoreCall}
    {next : c.Reply → Operation Answer} (he : f.errands[n]? = some e) (hr : e.rest = .call c next)
    (other : ¬ isAtHome who a e.replica = true) (l : Lease) (written : c.written? = some l)
    (role : Role) : ¬ a.Owns role l.key := by
  intro owns
  obtain ⟨role', isOf⟩ := D.isOf_of_written he hr written
  exact other (decide_eq_true (isOf.owned.unique owns).2)

/-! ## Moves -/

/-- **A move, and the same move in a fleet in which others do nothing**: if it is one of others,
it does not show there. -/
theorem Shadows.turn (D : f.IsParted who) (S : f.Shadows who a t f') (h : f.turn? m = some g)
    (controls : m.isOfController = true) :
    ∃ g' u, f'.after? (m.kept? (isAtHome who a) (f.errands.map (·.replica))) = some g' ∧
      g.Shadows who a u g' := by
  cases change_of_turn? h with
  | @begin i job r hr =>
    simp only [Move.kept?]
    split
    · rename_i own
      obtain ⟨g', turned, shadows⟩ := S.begin D hr controls own
      exact ⟨g', t, turned, shadows⟩
    · rename_i other
      refine ⟨f', t, rfl, S.shares, S.still, S.store, ?_⟩
      simpa only [List.filter_append, List.filter_singleton, other, cond_false, List.append_nil]
        using S.errands
  | @ask n e q next x h he hr answer =>
    simp only [Move.kept?, any_begun he]
    split
    · rename_i own
      obtain ⟨g', turned, shadows⟩ := S.ask D he hr answer own
      exact ⟨g', t, turned, shadows⟩
    · rename_i other
      obtain ⟨⟨x', scene⟩, asked, same⟩ := Option.map_eq_some_iff.1 answer
      cases same
      refine ⟨f', t, rfl, S.of_others he other rfl (S.shares.ask_other other asked) ?_⟩
      have store := (Scene.frame_ask asked).store
      change scene.store.Mirrors a t f'.scene.store
      rw [store]
      exact S.store
  | stuck _ _ answer => exact absurd answer (History.ask_ne_none D.still)
  | @call n e c next he hr =>
    simp only [Move.kept?, any_begun he]
    split
    · rename_i own
      obtain ⟨g', u, turned, shadows⟩ := S.call D he hr own
      exact ⟨g', u, turned, shadows⟩
    · rename_i other
      refine ⟨f', t, rfl, S.of_others he other rfl
        ⟨S.shares.clock, S.shares.participant, S.shares.replica⟩ ?_⟩
      exact S.store.answer_of_others (D.not_owns he hr other)
  | @giveUp n e he =>
    simp only [Move.kept?, any_begun he]
    split
    · rename_i own
      obtain ⟨g', turned, shadows⟩ := S.giveUp he own
      exact ⟨g', t, turned, shadows⟩
    · rename_i other
      refine ⟨f', t, rfl, S.of_others he other rfl (S.shares.abandon_other other e.inside) ?_⟩
      change (f.scene.abandon e.replica e.inside).store.Mirrors a t f'.scene.store
      rw [Scene.frame_abandon.store]
      exact S.store
  | @restart i =>
    simp only [Move.kept?]
    split
    · obtain ⟨g', turned, shadows⟩ := S.restart (i := i)
      exact ⟨g', t, turned, shadows⟩
    · rename_i other
      refine ⟨f', t, rfl, ?_, S.still, S.store, ?_⟩
      · exact S.shares.modify_other other (g := Replica.restarted) (fun _ => rfl) rfl rfl
      rw [filter_dropped]
      have kept : ∀ e ∈ f.errands.filter (fun e => isAtHome who a e.replica),
          (if e.replica = i then e.dropped else e) = e := by
        intro e he
        have own := (List.mem_filter.1 he).2
        have ne : e.replica ≠ i := by rintro rfl; exact other own
        exact if_neg ne
      rw [List.map_congr_left kept, List.map_id']
      exact S.errands
  | @advance span clock later =>
    have later' : f'.scene.clock.advance? span = some clock := S.shares.clock ▸ later
    exact ⟨_, t, (Change.advance later').turn?,
      ⟨rfl, S.shares.participant, S.shares.replica⟩, S.still, S.store, S.errands⟩
  | @switch offline =>
    refine ⟨_, t, Change.switch.turn?,
      ⟨S.shares.clock, S.shares.participant, S.shares.replica⟩, S.still, ?_, S.errands⟩
    exact { S.store with offline := rfl }
  | @deploy workloads =>
    refine ⟨_, t, Change.deploy.turn?,
      ⟨S.shares.clock, S.shares.participant, S.shares.replica⟩, S.still, ?_, S.errands⟩
    exact { S.store with workloads := rfl }

/-! ## Replicas keep to their own pools -/

/-- A process holds a lease that it held before, or one that it has just announced. -/
theorem held_of_turn? (h : f.turn? m = some g) {i : Nat} {lease : String}
    (held : g.held? i = some lease) :
    f.held? i = some lease ∨ ∃ (n : Nat) (e : Errand) (next : Unit → Operation Answer),
      f.errands[n]? = some e ∧ e.replica = i ∧ e.rest = .ask (.announce .acquired lease) next := by
  cases change_of_turn? h with
  | begin | stuck | call | advance | switch | deploy => exact .inl held
  | @ask n e q next x h he hr answer =>
    obtain ⟨⟨x', scene⟩, asked, same⟩ := Option.map_eq_some_iff.1 answer
    cases same
    change scene.replicas[i]?.bind (·.held) = some lease at held
    rw [Scene.replicas_ask asked, Scene.replicas_modifyReplica] at held
    split at held
    · rename_i own
      obtain ⟨r, hr', held⟩ := Option.bind_eq_some_iff.1 held
      obtain ⟨r, before, rfl⟩ := Option.map_eq_some_iff.1 hr'
      rcases Query.held_effect held with old | rfl
      · exact .inl (Option.bind_eq_some_iff.2 ⟨r, before, old⟩)
      · exact .inr ⟨n, e, next, he, own, hr⟩
    · exact .inl held
  | @giveUp n e he =>
    change (f.scene.abandon e.replica e.inside).replicas[i]?.bind (·.held) = some lease at held
    cases inside : e.inside with
    | none => rw [inside] at held; exact .inl held
    | some role =>
      rw [inside] at held
      have same :
          f.toHistory.SameLease i { f.toHistory with scene := f.scene.leave e.replica role } :=
        History.sameLease_modifyReplica fun _ => ⟨rfl, rfl⟩
      exact .inl (same.held ▸ held)
  | @restart j =>
    change (f.scene.modifyReplica j Replica.restarted).replicas[i]?.bind (·.held) = some lease
      at held
    rw [Scene.replicas_modifyReplica] at held
    split at held
    · cases hr : f.scene.replicas[i]? <;> simp [hr, Replica.restarted] at held
    · exact .inl held

/-- **A move keeps replicas to their own pools.** -/
theorem IsParted.turn (D : f.IsParted who) (h : f.turn? m = some g)
    (controls : m.isOfController = true) : g.IsParted who := by
  have grown := grows_of_turn? h
  refine ⟨grown.ticking.trans D.still, fun i => (grown.participantOf i).trans (D.participant i),
    ?_, ?_, ?_, ?_⟩
  · rcases quiet_or_call h with quiet | ⟨n, e, c, next, -, he, hr, same⟩
    · intro k l hl
      rw [quiet.leases] at hl
      exact D.orderly k l hl
    · rw [same]
      exact D.orderly.answer fun l written => ⟨_, D.isOf_of_written he hr written⟩
  · intro i lease held
    rcases held_of_turn? h held with old | ⟨n, e, next, he, rfl, hr⟩
    · exact D.held i lease old
    · exact D.permits he hr
  · have old : ∀ x ∈ f.log, ∃ e, g.errands[x.errand]? = some e ∧
        ∀ l, x.call.written? = some l → ∃ role, l.IsOf (who e.replica).pool.home role := by
      intro x hx
      obtain ⟨e, he, isOf⟩ := D.log x hx
      obtain ⟨d, hd, same⟩ := exists_errand_of_turn? h he
      exact ⟨d, hd, same ▸ isOf⟩
    intro x hx
    rcases quiet_or_call h with quiet | ⟨n, e, c, next, -, he, hr, same⟩
    · exact old x (quiet.same ▸ hx)
    · rw [same, History.log_call] at hx
      rcases List.mem_cons.1 hx with rfl | hx
      · obtain ⟨d, hd, replica⟩ := exists_errand_of_turn? h he
        exact ⟨d, hd, fun l written => replica ▸ D.isOf_of_written he hr written⟩
      · exact old x hx
  · intro a
    obtain ⟨f', t, S⟩ := D.shadowed a
    obtain ⟨g', u, -, shadows⟩ := S.turn D h controls
    exact ⟨g', u, shadows⟩

/-- A fleet at its beginning: replicas that hold nothing over a store without leases, and nothing
has been done yet. -/
structure IsUntouched (f : Fleet) : Prop where
  errands : f.errands = []
  log : f.log = []
  empty : f.scene.store.leases = .empty
  still : f.scene.ticking = false
  held : ∀ i, f.held? i = none

/-- Participants over an empty store have done nothing yet. -/
theorem isUntouched_ofParticipants {cs : List Participant} {time : Instant} :
    (ofParticipants cs time).IsUntouched where
  errands := rfl
  log := rfl
  empty := rfl
  still := rfl
  held i := by
    simp only [History.held?, ofParticipants, List.getElem?_map]
    cases cs[i]? <;> rfl

/-- A fleet at its beginning shadows itself. -/
theorem IsUntouched.shadows (U : f.IsUntouched) : f.Shadows who a (fun _ _ => False) f where
  shares := ⟨rfl, fun _ => rfl, fun _ _ => rfl⟩
  still := U.still
  store := by
    refine ⟨rfl, rfl, fun role k _ => ?_, fun k _ => ?_, nofun, nofun⟩
    · rw [U.empty]
      exact .none
    · rw [U.empty]
      rfl
  errands := by
    rw [U.errands]
    exact .nil

theorem IsUntouched.isParted (U : f.IsUntouched) : f.IsParted f.scene.participantOf where
  still := U.still
  participant _ := rfl
  orderly k l hl := by rw [U.empty] at hl; contradiction
  held i lease held := by rw [U.held] at held; contradiction
  log x hx := by rw [U.log] at hx; contradiction
  shadowed a := ⟨f, _, U.shadows⟩

/-! ## Runs -/

/-- Moves of controllers, the first of which may be missing. -/
theorem run?_of_after? {m? : Option Move} {moves : List Move}
    (controls : ∀ m, m? = some m → m.isOfController = true) (h : f.after? m? = some g) :
    f.run? (fun _ m => m.isOfController) (m?.toList ++ moves) =
      g.run? (fun _ m => m.isOfController) moves := by
  cases m? with
  | none =>
    obtain rfl := Option.some.inj h
    rfl
  | some m =>
    have turned : f.turn? m = some g := h
    rw [Option.toList_some, List.singleton_append, run?, if_pos (controls m rfl), turned]
    rfl

/-- **A run, and the same run in a fleet in which others do nothing.** -/
theorem Shadows.run? {moves : List Move} (D : f.IsParted who) (S : f.Shadows who a t f')
    (run : f.run? (fun _ m => m.isOfController) moves = some g) :
    g.IsParted who ∧ ∃ g' u, f'.run? (fun _ m => m.isOfController)
        (Move.keeping (isAtHome who a) (f.errands.map (·.replica)) moves) = some g' ∧
      g.Shadows who a u g' := by
  induction moves generalizing f f' t with
  | nil =>
    obtain rfl := Option.some.inj run
    exact ⟨D, f', t, rfl, S⟩
  | cons m moves ih =>
    rw [Fleet.run?] at run
    split at run
    · rename_i controls
      obtain ⟨f₁, turn, rest⟩ := Option.bind_eq_some_iff.1 run
      obtain ⟨f₁', u, turn', S₁⟩ := S.turn D turn controls
      obtain ⟨parted, g', v, run', shadows⟩ := ih (D.turn turn controls) S₁ rest
      refine ⟨parted, g', v, ?_, shadows⟩
      rw [Move.keeping, run?_of_after? (fun _ h => Move.isOfController_of_kept? h controls) turn',
        ← map_replica_of_turn? turn]
      exact run'
    · contradiction

/-- The leases that a replica has asked the store to create or to update, the last one first. -/
def writings (f : Fleet) (i : Nat) : List Lease :=
  (f.log.filter fun x => f.errands[x.errand]?.any fun e => e.replica = i).filterMap
    fun x => x.call.written?

/-- Whatever a replica has asked the store to write is a lease of its pool. -/
theorem IsParted.isOf_of_mem_writings (D : f.IsParted who) {i : Nat} {l : Lease}
    (hl : l ∈ f.writings i) : ∃ role, l.IsOf (who i).pool.home role := by
  obtain ⟨x, hx, written⟩ := List.mem_filterMap.1 hl
  obtain ⟨logged, own⟩ := List.mem_filter.1 hx
  obtain ⟨e, he, isOf⟩ := D.log x logged
  rw [he] at own
  obtain rfl := of_decide_eq_true own
  exact isOf l written

/-- **Pools do not interfere.** Of replicas of any pools over a store without leases, whatever
their controllers do in whatever order:
* what a replica of the pool creates, updates or releases are leases of the pool, by their names;
* no replica of another pool writes such a lease;
* the leases of the pool are, up to versions and identifiers, those of the run in which all moves
  of the replicas of other pools are left out. -/
theorem apart_of_run {moves : List Move} (untouched : f.IsUntouched)
    (run : f.run? (fun _ m => m.isOfController) moves = some g) (a : Home) :
    (∀ i, (f.scene.participantOf i).pool.home = a → ∀ l ∈ g.writings i, ∃ role, a.Owns role l.key) ∧
    (∀ i, (f.scene.participantOf i).pool.home ≠ a → ∀ l ∈ g.writings i,
      ∀ role, ¬ a.Owns role l.key) ∧
    ∃ g', f.run? (fun _ m => m.isOfController)
        (Move.keeping (isAtHome f.scene.participantOf a) [] moves) = some g' ∧
      ∀ role k, a.Owns role k → (g.scene.store.leases.get? k).map Lease.bare =
        (g'.scene.store.leases.get? k).map Lease.bare := by
  have begun : f.errands.map (·.replica) = [] := by rw [untouched.errands]; rfl
  obtain ⟨parted, g', t, run', shadows⟩ :=
    Shadows.run? (a := a) untouched.isParted untouched.shadows run
  rw [begun] at run'
  refine ⟨?_, ?_, g', run', ?_⟩
  · rintro i rfl l hl
    obtain ⟨role, isOf⟩ := parted.isOf_of_mem_writings hl
    exact ⟨role, isOf.owned⟩
  · intro i other l hl role owns
    obtain ⟨role', isOf⟩ := parted.isOf_of_mem_writings hl
    exact other (isOf.owned.unique owns).2
  · intro role k owns
    cases hg : g.scene.store.leases.get? k with
    | none => rw [shadows.store.get?_eq_none owns hg]
    | some l =>
      obtain ⟨l', hl', twins⟩ := shadows.store.exists_twin owns hg
      rw [hl', Option.map_some, Option.map_some, twins.bare]

/-- Participants of two pools, one of which is called like a member of the other. -/
def neighbours (time : Instant) : Fleet :=
  ofParticipants
    [{ pool := { Pool.small with name := "a" }, pod := "x", enabled := ⟨true, true⟩ },
     { pool := { Pool.small with name := "a-00" }, pod := "y", enabled := ⟨true, true⟩ }] time

/-- Both run their cycles at the same time, and their requests alternate. -/
def alternating : List Move :=
  [.begin 1 (.cycle .leader), .begin 0 (.cycle .leader)] ++
    (List.replicate 10 [Move.go 0, Move.go 1]).flatten ++
    [.begin 1 (.cycle .member), .begin 0 (.cycle .member)] ++
    (List.replicate 8 [Move.go 2, Move.go 3]).flatten

/-- Both claim a member lease, and that of the first is the one that it would have claimed
alone. -/
theorem apart_of_alternating :
    ∃ g g' l, (neighbours ⟨0⟩).run? (fun _ m => m.isOfController) alternating = some g ∧
      g.scene.store.lease? "ns" (memberLeaseName "a" 0) = some l ∧ l.isHeldBy "x" = true ∧
      (neighbours ⟨0⟩).run? (fun _ m => m.isOfController)
        (Move.keeping (isAtHome (neighbours ⟨0⟩).scene.participantOf ⟨"ns", "a"⟩) [] alternating) =
          some g' ∧
      (g'.scene.store.lease? "ns" (memberLeaseName "a" 0)).map Lease.bare = some l.bare := by
  have leads : (neighbours ⟨0⟩).leadsTo (fun _ m => m.isOfController) alternating
      (fun g => (g.scene.store.lease? "ns" (memberLeaseName "a" 0)).any fun l => l.isHeldBy "x")
      = true := by decide +kernel
  obtain ⟨g, run, claimed⟩ := exists_of_leadsTo leads
  obtain ⟨l, hl, held⟩ := (Option.any_eq_true ..).1 claimed
  obtain ⟨-, -, g', run', same⟩ :=
    apart_of_run isUntouched_ofParticipants run ⟨"ns", "a"⟩
  have found := same .member ⟨"ns", memberLeaseName "a" 0⟩ ⟨rfl, 0, rfl⟩
  rw [show g.scene.store.leases.get? ⟨"ns", memberLeaseName "a" 0⟩ = some l from hl] at found
  exact ⟨g, g', l, run, hl, held, run', found.symm⟩

end Fleet

end LeasePool
