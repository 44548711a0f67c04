import LeasePool.Proofs.Pool.Matching

/-!
# Fleets in which others do nothing

From the moves of a fleet those of some replicas can be kept and all others left out; time, the
outages of the store and the workloads go on as before. The errands that are left get new
numbers. A second fleet in which only the replicas of one pool do anything shadows the first: its
replicas of that pool remember the same, its store has the leases of that pool, and its errands
go on alike.
-/

namespace LeasePool

/-! ## Moves without those of others -/

namespace Move

/-- The number of an errand among those of the replicas that are kept. The list tells the replicas
of all errands so far. -/
def place (keeps : Nat → Bool) (begun : List Nat) (errand : Nat) : Nat :=
  (begun.take errand).countP keeps

/-- The move, unless it is one of a replica that is not kept. Moves that nobody makes stay. -/
def kept? (keeps : Nat → Bool) (begun : List Nat) : Move → Option Move
  | .begin replica job => if keeps replica then some (.begin replica job) else none
  | .go errand =>
    if begun[errand]?.any keeps then some (.go (place keeps begun errand)) else none
  | .giveUp errand =>
    if begun[errand]?.any keeps then some (.giveUp (place keeps begun errand)) else none
  | .restart replica => if keeps replica then some (.restart replica) else none
  | .advance span => some (.advance span)
  | .switch offline => some (.switch offline)
  | .deploy workloads => some (.deploy workloads)

/-- The replicas of the errands that a move begins. -/
def begins : Move → List Nat
  | .begin replica _ => [replica]
  | _ => []

/-- The moves without those of replicas that are not kept. The list tells the replicas of all
errands begun before. -/
def keeping (keeps : Nat → Bool) : List Nat → List Move → List Move
  | _, [] => []
  | begun, m :: moves =>
    (m.kept? keeps begun).toList ++ keeping keeps (begun ++ m.begins) moves

/-- Moves that are kept are moves of controllers if they were before. -/
theorem isOfController_of_kept? {keeps : Nat → Bool} {begun : List Nat} {m m' : Move}
    (h : m.kept? keeps begun = some m') (controls : m.isOfController = true) :
    m'.isOfController = true := by
  cases m with
  | begin replica job =>
    simp only [kept?] at h
    split at h
    · exact Option.some.inj h ▸ controls
    · contradiction
  | go | giveUp | restart =>
    simp only [kept?] at h
    split at h
    · exact Option.some.inj h ▸ rfl
    · contradiction
  | advance | switch | deploy => exact Option.some.inj h ▸ rfl

end Move

/-! ## Lists of which some entries are kept -/

section

variable {α β : Type} {p : α → Bool} {R : α → β → Prop} {xs : List α} {ys : List β} {n : Nat}
  {x z : α} {w : β}

/-- What stands for an entry that is kept. -/
theorem exists_of_forall₂_filter (H : List.Forall₂ R (xs.filter p) ys) (hx : xs[n]? = some x)
    (keep : p x = true) : ∃ y, ys[(xs.take n).countP p]? = some y ∧ R x y := by
  induction xs generalizing n ys with
  | nil => simp at hx
  | cons first xs ih =>
    cases n with
    | zero =>
      obtain rfl := Option.some.inj hx
      rw [List.filter_cons_of_pos keep] at H
      cases H with
      | cons related _ => exact ⟨_, rfl, related⟩
    | succ n =>
      rw [List.getElem?_cons_succ] at hx
      rw [List.take_succ_cons]
      by_cases kept : p first = true
      · rw [List.filter_cons_of_pos kept] at H
        rw [List.countP_cons_of_pos kept]
        cases H with
        | cons _ rest => exact ih rest hx
      · rw [List.filter_cons_of_neg kept] at H
        rw [List.countP_cons_of_neg kept]
        exact ih H hx

/-- An entry that is kept is changed together with what stands for it. -/
theorem forall₂_filter_set (H : List.Forall₂ R (xs.filter p) ys) (hx : xs[n]? = some x)
    (keep : p x = true) (still : p z = true) (related : R z w) :
    List.Forall₂ R ((xs.set n z).filter p) (ys.set ((xs.take n).countP p) w) := by
  induction xs generalizing n ys with
  | nil => simp at hx
  | cons first xs ih =>
    cases n with
    | zero =>
      obtain rfl := Option.some.inj hx
      rw [List.filter_cons_of_pos keep] at H
      rw [List.set_cons_zero, List.filter_cons_of_pos still]
      cases H with
      | cons _ rest => exact .cons related rest
    | succ n =>
      rw [List.getElem?_cons_succ] at hx
      rw [List.set_cons_succ, List.take_succ_cons]
      by_cases kept : p first = true
      · rw [List.filter_cons_of_pos kept] at H ⊢
        rw [List.countP_cons_of_pos kept]
        cases H with
        | cons first rest => exact .cons first (ih rest hx)
      · rw [List.filter_cons_of_neg kept] at H ⊢
        rw [List.countP_cons_of_neg kept]
        exact ih H hx

/-- A change of an entry that is not kept does not show. -/
theorem filter_set_of_not (hx : xs[n]? = some x) (gone : ¬ p x = true) (still : ¬ p z = true) :
    (xs.set n z).filter p = xs.filter p := by
  induction xs generalizing n with
  | nil => rfl
  | cons first xs ih =>
    cases n with
    | zero =>
      obtain rfl := Option.some.inj hx
      rw [List.set_cons_zero, List.filter_cons_of_neg gone, List.filter_cons_of_neg still]
    | succ n =>
      rw [List.getElem?_cons_succ] at hx
      rw [List.set_cons_succ, List.filter_cons, List.filter_cons, ih hx]

end

/-! ## What replicas share -/

/-- What a question does to the memory of the process that is asked. -/
def Query.effect : Query → Replica → Replica
  | .setKnownDeployment name, r => { r with deployment := name }
  | .announce kind lease, r => Scene.told r kind lease
  | .enter role, r => { r with guards := r.guards.set role (r.guards.get role).tryEnter.2 }
  | .leave role, r => { r with guards := r.guards.set role (r.guards.get role).leave }
  | .now, r | .knownDeployment, r | .heldLease, r => r

@[simp] theorem Query.participant_effect {q : Query} {r : Replica} :
    (q.effect r).participant = r.participant := by
  cases q <;> rfl

/-- A process holds a lease that it held before, or one that it has just announced. -/
theorem Query.held_effect {q : Query} {r : Replica} {lease : String}
    (h : (q.effect r).held = some lease) :
    r.held = some lease ∨ q = .announce .acquired lease := by
  cases q with
  | announce kind name =>
    simp only [effect, Scene.told] at h
    split at h
    · rename_i acquired
      exact .inr (by rw [acquired, Option.some.inj h])
    · contradiction
  | _ => exact .inl h

namespace Scene

variable {s s' k : Scene} {i : Nat} {q : Query} {x : q.Answer}

/-- **What a question does** to the replicas of a scene. -/
theorem replicas_ask (h : s.ask i q = some (x, k)) :
    k.replicas = (s.modifyReplica i q.effect).replicas := by
  have same : (s.modifyReplica i fun r => r).replicas = s.replicas := List.modify_id i s.replicas
  cases q with
  | now =>
    obtain ⟨t, -, e⟩ := Option.map_eq_some_iff.1 h
    cases e
    exact same.symm
  | knownDeployment => cases h; exact same.symm
  | heldLease => cases h; exact same.symm
  | setKnownDeployment name => cases h; rfl
  | announce kind lease => cases h; exact replicas_announce
  | enter role => cases h; rfl
  | leave role => cases h; rfl

/-- What the second scene has of the first: the time, all participants, and what some of them
remember. -/
structure Shares (keeps : Nat → Bool) (s s' : Scene) : Prop where
  clock : s'.clock = s.clock
  participant : ∀ i, s'.participant? i = s.participant? i
  replica : ∀ i, keeps i = true → s'.replicas[i]? = s.replicas[i]?

variable {keeps : Nat → Bool} {k' : Scene} {g : Replica → Replica}

theorem participant?_of_replicas {j : Nat} (own : ∀ r, (g r).participant = r.participant)
    (hk : k.replicas = (s.modifyReplica i g).replicas) : k.participant? j = s.participant? j := by
  rw [participant?, hk]
  exact participant?_modifyReplica own j

/-- The same change of a replica in both scenes. -/
theorem Shares.modify (S : s.Shares keeps s') (own : ∀ r, (g r).participant = r.participant)
    (clock : k.clock = s.clock) (clock' : k'.clock = s'.clock)
    (hk : k.replicas = (s.modifyReplica i g).replicas)
    (hk' : k'.replicas = (s'.modifyReplica i g).replicas) : k.Shares keeps k' where
  clock := by rw [clock, clock', S.clock]
  participant j := by
    rw [participant?_of_replicas own hk, participant?_of_replicas own hk', S.participant]
  replica j keep := by
    rw [hk, hk', replicas_modifyReplica, replicas_modifyReplica, S.replica j keep]

/-- A change of a replica that is none of those that share. -/
theorem Shares.modify_other (S : s.Shares keeps s') (other : ¬ keeps i = true)
    (own : ∀ r, (g r).participant = r.participant) (clock : k.clock = s.clock)
    (hk : k.replicas = (s.modifyReplica i g).replicas) : k.Shares keeps s' where
  clock := by rw [clock, S.clock]
  participant j := by rw [participant?_of_replicas own hk, S.participant]
  replica j keep := by
    have ne : i ≠ j := fun same => other (same ▸ keep)
    rw [hk, replicas_modifyReplica, if_neg ne, S.replica j keep]

/-- **A replica that shares gets the same answers** in both scenes. -/
theorem Shares.ask (S : s.Shares keeps s') (own : keeps i = true) (still : s.ticking = false)
    (still' : s'.ticking = false) (h : s.ask i q = some (x, k)) :
    ∃ k', s'.ask i q = some (x, k') ∧ k.Shares keeps k' := by
  have answer : ∃ k', s'.ask i q = some (x, k') := by
    have replica := S.replica i own
    cases q with
    | now =>
      simp only [Scene.ask, now?, still, still', S.clock] at h ⊢
      cases h
      exact ⟨s', rfl⟩
    | knownDeployment => cases h; exact ⟨_, by rw [Scene.ask, replica]⟩
    | heldLease => cases h; exact ⟨_, by rw [Scene.ask, replica]⟩
    | setKnownDeployment name => exact ⟨_, rfl⟩
    | announce kind lease => exact ⟨_, rfl⟩
    | enter role => cases h; exact ⟨_, by rw [Scene.ask, replica]⟩
    | leave role => exact ⟨_, rfl⟩
  obtain ⟨k', h'⟩ := answer
  exact ⟨k', h', S.modify (fun _ => Query.participant_effect) (frame_ask h).clock
    (frame_ask h').clock (replicas_ask h) (replicas_ask h')⟩

/-- The answers to others do not concern the replicas that share. -/
theorem Shares.ask_other (S : s.Shares keeps s') (other : ¬ keeps i = true)
    (h : s.ask i q = some (x, k)) : k.Shares keeps s' :=
  S.modify_other other (fun _ => Query.participant_effect) (frame_ask h).clock (replicas_ask h)

/-- An operation that is given up leaves its cycle in both scenes. -/
theorem Shares.abandon (S : s.Shares keeps s') (i : Nat) (inside : Option Role) :
    (s.abandon i inside).Shares keeps (s'.abandon i inside) := by
  cases inside with
  | none => exact S
  | some role =>
    exact S.modify (g := fun r => { r with guards := r.guards.set role (r.guards.get role).leave })
      (fun _ => rfl) rfl rfl rfl rfl

theorem Shares.abandon_other (S : s.Shares keeps s') (other : ¬ keeps i = true)
    (inside : Option Role) : (s.abandon i inside).Shares keeps s' := by
  cases inside with
  | none => exact S
  | some role =>
    exact S.modify_other other
      (g := fun r => { r with guards := r.guards.set role (r.guards.get role).leave })
      (fun _ => rfl) rfl rfl

end Scene

/-! ## Fleets -/

/-- An errand goes on like another one over a store that mirrors its own. -/
structure Errand.Matches (a : Home) (t : Tally) (e e' : Errand) : Prop where
  replica : e'.replica = e.replica
  inside : e'.inside = e.inside
  rest : e.rest.Matches a (fun _ => Eq) t e'.rest

theorem Errand.Matches.mono {a : Home} {t u : Tally} {e e' : Errand} (H : e.Matches a t e')
    (le : t ≤ u) : e.Matches a u e' :=
  ⟨H.replica, H.inside, H.rest.mono (fun _ _ _ => le_rfl) le⟩

/-- Errands that have been given up go on alike, which is to say not at all. -/
theorem Errand.Matches.dropped {a : Home} {t : Tally} {e e' : Errand} (H : e.Matches a t e') :
    e.dropped.Matches a t e'.dropped := by
  refine ⟨H.replica, rfl, ?_⟩
  have rest := H.rest
  change (e.rest.dropped).Matches a _ t e'.rest.dropped
  generalize e.rest = x at rest ⊢
  generalize e'.rest = y at rest ⊢
  cases rest with
  | done same => exact .done same
  | _ => exact .crash

namespace Fleet

/-- Whatever moves can do, they do. -/
theorem Change.turn? {f g : Fleet} {m : Move} (h : f.Change m g) : f.turn? m = some g := by
  cases h with
  | begin replica => rw [Fleet.turn?, replica]; rfl
  | ask errand rest answer =>
    rw [Fleet.turn?, errand, Option.bind_some, go?, rest]
    simp only [answer]
  | stuck errand rest answer =>
    rw [Fleet.turn?, errand, Option.bind_some, go?, rest]
    simp only [answer]
  | call errand rest => rw [Fleet.turn?, errand, Option.bind_some, go?, rest]
  | giveUp errand => rw [Fleet.turn?, errand]; rfl
  | advance later => rw [Fleet.turn?, later]; rfl
  | restart | switch | deploy => rfl

/-- Whether a replica takes part in a pool. -/
def isAtHome (who : Nat → Participant) (a : Home) (i : Nat) : Bool := (who i).pool.home = a

/-- The second fleet has what the first has of a pool: the replicas that take part in it, its
leases, and the errands of these replicas. -/
structure Shadows (who : Nat → Participant) (a : Home) (t : Tally) (f f' : Fleet) : Prop where
  shares : f.scene.Shares (isAtHome who a) f'.scene
  still : f'.scene.ticking = false
  store : f.scene.store.Mirrors a t f'.scene.store
  errands : List.Forall₂ (Errand.Matches a t)
    (f.errands.filter fun e => isAtHome who a e.replica) f'.errands

variable {who : Nat → Participant} {a : Home} {t u : Tally} {f f' : Fleet} {n : Nat} {e : Errand}

/-- The replicas of the errands after a move. -/
theorem map_replica_of_turn? {g : Fleet} {m : Move} (h : f.turn? m = some g) :
    g.errands.map (·.replica) = f.errands.map (·.replica) ++ m.begins := by
  -- An errand that is changed stays one of its replica.
  have set : ∀ {h : History} {n : Nat} {e d : Errand}, f.errands[n]? = some e →
      d.replica = e.replica →
      (f.setErrand h n d).errands.map (·.replica) = f.errands.map (·.replica) ++ [] := by
    intro h n e d he same
    rw [setErrand, List.map_set, same, List.append_nil]
    refine List.ext_getElem? fun j => ?_
    rw [List.getElem?_set]
    split
    · rename_i own
      subst own
      rw [List.getElem?_map, he, List.length_map, if_pos (List.getElem?_eq_some_iff.1 he).1]
      rfl
    · rfl
  cases change_of_turn? h with
  | begin => exact List.map_append
  | ask he | stuck he | call he | giveUp he => exact set he rfl
  | @restart i =>
    simp only [Move.begins, List.append_nil, List.map_map]
    refine List.map_congr_left fun e _ => ?_
    simp only [Function.comp_apply]
    split <;> rfl
  | advance | switch | deploy => exact (List.append_nil _).symm

/-- The number of an errand among those of the replicas of a pool. -/
theorem place_eq {keeps : Nat → Bool} :
    Move.place keeps (f.errands.map (·.replica)) n =
      (f.errands.take n).countP fun e => keeps e.replica := by
  rw [Move.place, ← List.map_take, List.countP_map]
  rfl

/-- **The errand that stands for one** of a replica of the pool. -/
theorem Shadows.errand (S : f.Shadows who a t f') (he : f.errands[n]? = some e)
    (own : isAtHome who a e.replica = true) :
    ∃ e', f'.errands[Move.place (isAtHome who a) (f.errands.map (·.replica)) n]? = some e' ∧
      e.Matches a t e' := by
  rw [place_eq]
  exact exists_of_forall₂_filter S.errands he own

/-- Errands that stand for each other, after one of them has gone on. -/
theorem Shadows.setErrand (S : f.Shadows who a t f') (le : t ≤ u)
    (he : f.errands[n]? = some e) (own : isAtHome who a e.replica = true) {d d' : Errand}
    (same : d.replica = e.replica) (related : d.Matches a u d') :
    List.Forall₂ (Errand.Matches a u)
      ((f.errands.set n d).filter fun e => isAtHome who a e.replica)
      (f'.errands.set (Move.place (isAtHome who a) (f.errands.map (·.replica)) n) d') := by
  rw [place_eq]
  exact forall₂_filter_set (S.errands.imp fun _ _ h => h.mono le) he own (same ▸ own) related

/-- A restart drops the errands of a replica, whether they are kept or not. -/
theorem filter_dropped {keeps : Nat → Bool} {i : Nat} {es : List Errand} :
    (es.map fun e => if e.replica = i then e.dropped else e).filter (fun e => keeps e.replica) =
      (es.filter fun e => keeps e.replica).map fun e =>
        if e.replica = i then e.dropped else e := by
  have same : (fun e => keeps e.replica) ∘
      (fun e : Errand => if e.replica = i then e.dropped else e) = fun e => keeps e.replica := by
    funext e
    simp only [Function.comp_apply]
    split <;> rfl
  rw [List.filter_map, same]

/-- Whether a move that an errand makes is kept depends on the replica. -/
theorem any_begun (he : f.errands[n]? = some e) {keeps : Nat → Bool} :
    (f.errands.map (·.replica))[n]?.any keeps = keeps e.replica := by
  rw [List.getElem?_map, he]
  rfl

end Fleet

end LeasePool
