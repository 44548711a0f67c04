import LeasePool.Proofs.Fleet.Basic

/-!
# What a move of a fleet can do

One case for each kind of move, and from that what every move does to the history: the log gets
longer at its front, the clock does not go back, and participants stay who they are. The other
half is about the store, whoever calls it with whatever request: a stored lease is one that was
written before, and of the leases written under one key no two have the same version.

## Main definitions

* `Fleet.Change`, `Fleet.Fate`: what a move can do, and what becomes of an errand, by cases.
* `History.Grows`: a history and a later one.
* `History.IsSound`: versions tell the stored leases of a key apart.

## Main statements

* `Fleet.grows_of_turn?`: a move leads to a later history.
* `History.isSound_call`: every call keeps the history sound.
-/

namespace LeasePool

/-! ## Moves by cases -/

namespace Fleet

/-- What a move can do. -/
inductive Change (f : Fleet) : Move → Fleet → Prop
  | begin {i : Nat} {job : Job} {r : Replica} (replica : f.scene.replicas[i]? = some r) :
    Change f (.begin i job)
      { f with
        errands := f.errands ++ [{ replica := i, job, rest := job.operation r.participant }] }
  | ask {n : Nat} {e : Errand} {q : Query} {next : q.Answer → Operation Answer} {a : q.Answer}
    {h : History} (errand : f.errands[n]? = some e) (rest : e.rest = .ask q next)
    (answer : f.ask e.replica q = some (a, h)) :
    Change f (.go n) (f.setErrand h n { e with inside := q.inside e.inside a, rest := next a })
  /-- The clock has left the calendar. -/
  | stuck {n : Nat} {e : Errand} {q : Query} {next : q.Answer → Operation Answer}
    (errand : f.errands[n]? = some e) (rest : e.rest = .ask q next)
    (answer : f.ask e.replica q = none) :
    Change f (.go n) (f.setErrand f.toHistory n { e with rest := .crash })
  | call {n : Nat} {e : Errand} {c : StoreCall} {next : c.Reply → Operation Answer}
    (errand : f.errands[n]? = some e) (rest : e.rest = .call c next) :
    Change f (.go n) (f.setErrand (f.call e.replica n c) n { e with rest := next (f.reply c) })
  | giveUp {n : Nat} {e : Errand} (errand : f.errands[n]? = some e) :
    Change f (.giveUp n)
      (f.setErrand { f.toHistory with scene := f.scene.abandon e.replica e.inside } n e.dropped)
  | restart {i : Nat} :
    Change f (.restart i)
      { f with
        scene := f.scene.modifyReplica i Replica.restarted
        errands := f.errands.map fun e => if e.replica = i then e.dropped else e }
  | advance {span : Span} {clock : Clock} (later : f.scene.clock.advance? span = some clock) :
    Change f (.advance span) { f with scene := { f.scene with clock } }
  | switch {offline : Bool} :
    Change f (.switch offline)
      { f with scene := { f.scene with store := { f.scene.store with offline } } }
  | deploy {workloads : List Workload} :
    Change f (.deploy workloads)
      { f with scene := { f.scene with store := { f.scene.store with workloads } } }

/-- A move does one of the things that moves can do. -/
theorem change_of_turn? {f g : Fleet} {m : Move} (h : f.turn? m = some g) : f.Change m g := by
  cases m with
  | begin i job =>
    obtain ⟨r, hr, rfl⟩ := Option.map_eq_some_iff.1 h
    exact .begin hr
  | go n =>
    obtain ⟨e, he, hg⟩ := Option.bind_eq_some_iff.1 h
    cases hrest : e.rest with
    | done a => simp [go?, hrest] at hg
    | crash => simp [go?, hrest] at hg
    | call c next =>
      simp only [go?, hrest, Option.some.injEq] at hg
      exact hg ▸ .call he hrest
    | ask q next =>
      cases ha : f.ask e.replica q with
      | none =>
        simp only [go?, hrest, ha, Option.some.injEq] at hg
        exact hg ▸ .stuck he hrest ha
      | some answer =>
        simp only [go?, hrest, ha, Option.some.injEq] at hg
        exact hg ▸ .ask he hrest ha
  | giveUp n =>
    obtain ⟨e, he, rfl⟩ := Option.map_eq_some_iff.1 h
    exact .giveUp he
  | restart i => exact Option.some.inj h ▸ .restart
  | advance span =>
    obtain ⟨clock, hc, rfl⟩ := Option.map_eq_some_iff.1 h
    exact .advance hc
  | switch offline => exact Option.some.inj h ▸ .switch
  | deploy workloads => exact Option.some.inj h ▸ .deploy

/-- An errand of a fleet in which one was changed is that one, or is as before. -/
theorem errand_of_setErrand {f : Fleet} {h : History} {k n : Nat} {d e : Errand}
    (he : (f.setErrand h k d).errands[n]? = some e) :
    (n = k ∧ e = d) ∨ (n ≠ k ∧ f.errands[n]? = some e) := by
  rw [setErrand, List.getElem?_set] at he
  by_cases same : k = n
  · rw [if_pos same] at he
    split at he
    · exact .inl ⟨same.symm, (Option.some.inj he).symm⟩
    · contradiction
  · rw [if_neg same] at he
    exact .inr ⟨Ne.symm same, he⟩

/-- What becomes of the errand with a number in a move from `f` to `g`. -/
inductive Fate (f g : Fleet) : Move → Nat → Errand → Prop
  /-- Another one is concerned. -/
  | kept {m : Move} {n : Nat} {e : Errand} (before : f.errands[n]? = some e) (notGo : m ≠ .go n)
    (notGivenUp : m ≠ .giveUp n) (notRestarted : m ≠ .restart e.replica) : Fate f g m n e
  | givenUp {n : Nat} {e : Errand} (before : f.errands[n]? = some e) :
    Fate f g (.giveUp n) n e.dropped
  | restarted {n : Nat} {e : Errand} (before : f.errands[n]? = some e) :
    Fate f g (.restart e.replica) n e.dropped
  | asked {n : Nat} {e : Errand} {q : Query} {next : q.Answer → Operation Answer} {a : q.Answer}
    (before : f.errands[n]? = some e) (rest : e.rest = .ask q next)
    (answer : f.ask e.replica q = some (a, g.toHistory)) :
    Fate f g (.go n) n { e with inside := q.inside e.inside a, rest := next a }
  | stuck {n : Nat} {e : Errand} {q : Query} {next : q.Answer → Operation Answer}
    (before : f.errands[n]? = some e) (rest : e.rest = .ask q next)
    (answer : f.ask e.replica q = none) : Fate f g (.go n) n { e with rest := .crash }
  | called {n : Nat} {e : Errand} {c : StoreCall} {next : c.Reply → Operation Answer}
    (before : f.errands[n]? = some e) (rest : e.rest = .call c next)
    (same : g.toHistory = f.call e.replica n c) :
    Fate f g (.go n) n { e with rest := next (f.reply c) }
  | begun {i : Nat} {job : Job} {r : Replica} (replica : f.scene.replicas[i]? = some r)
    (same : g.toHistory = f.toHistory) :
    Fate f g (.begin i job) f.errands.length
      { replica := i, job, rest := job.operation r.participant }

/-- **What becomes of errands in a move.** -/
theorem fate_of_turn? {f g : Fleet} {m : Move} (h : f.turn? m = some g) {n : Nat} {e : Errand}
    (he : g.errands[n]? = some e) : f.Fate g m n e := by
  cases change_of_turn? h with
  | @begin i job r replica =>
    rcases Nat.lt_trichotomy n f.errands.length with short | rfl | long
    · rw [List.getElem?_append_left short] at he
      exact .kept he Move.noConfusion Move.noConfusion Move.noConfusion
    · rw [List.getElem?_concat_length] at he
      obtain rfl := Option.some.inj he
      exact .begun replica rfl
    · rw [List.getElem?_eq_none (by simp; omega)] at he
      contradiction
  | ask errand rest answer =>
    rcases errand_of_setErrand he with ⟨rfl, rfl⟩ | ⟨other, he⟩
    · exact .asked errand rest answer
    · exact .kept he (fun eq => other (Move.go.inj eq).symm) Move.noConfusion Move.noConfusion
  | stuck errand rest answer =>
    rcases errand_of_setErrand he with ⟨rfl, rfl⟩ | ⟨other, he⟩
    · exact .stuck errand rest answer
    · exact .kept he (fun eq => other (Move.go.inj eq).symm) Move.noConfusion Move.noConfusion
  | call errand rest =>
    rcases errand_of_setErrand he with ⟨rfl, rfl⟩ | ⟨other, he⟩
    · exact .called errand rest rfl
    · exact .kept he (fun eq => other (Move.go.inj eq).symm) Move.noConfusion Move.noConfusion
  | giveUp errand =>
    rcases errand_of_setErrand he with ⟨rfl, rfl⟩ | ⟨other, he⟩
    · exact .givenUp errand
    · exact .kept he Move.noConfusion (fun eq => other (Move.giveUp.inj eq).symm) Move.noConfusion
  | @restart i =>
    have he : (f.errands.map fun e => if e.replica = i then e.dropped else e)[n]? = some e := he
    rw [List.getElem?_map] at he
    obtain ⟨d, hd, rfl⟩ := Option.map_eq_some_iff.1 he
    by_cases own : d.replica = i
    · subst own
      rw [if_pos rfl]
      exact .restarted hd
    · rw [if_neg own]
      exact .kept hd Move.noConfusion Move.noConfusion fun eq => own (Move.restart.inj eq).symm
  | advance => exact .kept he Move.noConfusion Move.noConfusion Move.noConfusion
  | switch => exact .kept he Move.noConfusion Move.noConfusion Move.noConfusion
  | deploy => exact .kept he Move.noConfusion Move.noConfusion Move.noConfusion

/-- An errand after a move is one from before, with the same job, or it has just begun. -/
theorem errand_of_turn? {f g : Fleet} {m : Move} (h : f.turn? m = some g) {n : Nat} {e : Errand}
    (he : g.errands[n]? = some e) :
    (∃ d, f.errands[n]? = some d ∧ e.replica = d.replica ∧ e.job = d.job) ∨
      ∃ i job r, m = .begin i job ∧ f.scene.replicas[i]? = some r ∧
        e = { replica := i, job, rest := job.operation r.participant } := by
  cases fate_of_turn? h he with
  | kept before => exact .inl ⟨e, before, rfl, rfl⟩
  | givenUp before => exact .inl ⟨_, before, rfl, rfl⟩
  | restarted before => exact .inl ⟨_, before, rfl, rfl⟩
  | asked before => exact .inl ⟨_, before, rfl, rfl⟩
  | stuck before => exact .inl ⟨_, before, rfl, rfl⟩
  | called before => exact .inl ⟨_, before, rfl, rfl⟩
  | begun replica => exact .inr ⟨_, _, _, rfl, replica, rfl⟩

/-- Errands do not vanish, and stay those of their replicas. -/
theorem exists_errand_of_turn? {f g : Fleet} {m : Move} (h : f.turn? m = some g) {n : Nat}
    {e : Errand} (he : f.errands[n]? = some e) :
    ∃ d, g.errands[n]? = some d ∧ d.replica = e.replica := by
  have short := (List.getElem?_eq_some_iff.1 he).1
  have kept : n < g.errands.length := by
    cases change_of_turn? h <;> simp only [setErrand, List.length_append, List.length_set,
      List.length_map] <;> omega
  obtain ⟨d, hd⟩ : ∃ d, g.errands[n]? = some d := ⟨_, List.getElem?_eq_getElem kept⟩
  refine ⟨d, hd, ?_⟩
  cases fate_of_turn? h hd with
  | begun => exact absurd short (Nat.lt_irrefl _)
  | kept before | givenUp before | restarted before | asked before | stuck before | called before =>
    obtain rfl := Option.some.inj (he.symm.trans before)
    rfl

end Fleet

/-! ## Instants -/

theorem Instant.le_refl (t : Instant) : t ≤ t := Int.le_refl _

theorem Instant.le_trans {a b c : Instant} (h : a ≤ b) (k : b ≤ c) : a ≤ c := Int.le_trans h k

/-- A clock that is moved on shows no earlier time. -/
theorem Clock.now_le_of_advance? {c d : Clock} {span : Span} (h : c.advance? span = some d) :
    c.now ≤ d.now := by
  simp only [Clock.advance?] at h
  split at h
  · obtain rfl := Option.some.inj h
    change c.time.instant.nanoseconds ≤ c.time.instant.nanoseconds + span.nanoseconds
    omega
  · contradiction

/-! ## Questions to a process -/

namespace Scene

/-- What the replicas of a scene are when one of them has been changed. -/
theorem replicas_modifyReplica {s : Scene} {i j : Nat} {g : Replica → Replica} :
    (s.modifyReplica i g).replicas[j]? =
      if i = j then s.replicas[j]?.map g else s.replicas[j]? := by
  simp only [modifyReplica, List.getElem?_modify]
  split <;> simp

theorem participant?_modifyReplica {s : Scene} {i : Nat} {g : Replica → Replica}
    (h : ∀ r, (g r).participant = r.participant) (j : Nat) :
    (s.modifyReplica i g).participant? j = s.participant? j := by
  simp only [participant?, replicas_modifyReplica]
  split
  · cases s.replicas[j]? <;> simp [h]
  · rfl

/-- What a replica remembers after it has told its listeners about an event. -/
def told (r : Replica) (kind : EventKind) (lease : String) : Replica :=
  { r with
    held := if kind = .acquired then some lease else none
    coordinator := r.coordinator.deliver kind lease }

theorem replicas_announce {s : Scene} {i : Nat} {kind : EventKind} {lease : String} :
    (s.announce i kind lease).replicas =
      (s.modifyReplica i fun r => told r kind lease).replicas := by
  simp only [announce]
  split
  · rename_i none
    simp only [modifyReplica]
    exact (List.modify_eq_self (List.getElem?_eq_none_iff.1 none)).symm
  · rfl

/-- What no question to a process changes: the store, the clock, and who takes part. -/
structure Frame (s t : Scene) : Prop where
  store : t.store = s.store
  clock : t.clock = s.clock
  ticking : t.ticking = s.ticking
  participant : ∀ i, t.participant? i = s.participant? i

theorem frame_modifyReplica {s : Scene} {i : Nat} {g : Replica → Replica}
    (h : ∀ r, (g r).participant = r.participant) : s.Frame (s.modifyReplica i g) :=
  ⟨rfl, rfl, rfl, participant?_modifyReplica h⟩

theorem frame_announce {s : Scene} {i : Nat} {kind : EventKind} {lease : String} :
    s.Frame (s.announce i kind lease) := by
  have told : ∀ j, (s.announce i kind lease).participant? j = s.participant? j := by
    intro j
    rw [participant?, replicas_announce]
    exact participant?_modifyReplica (g := fun r => told r kind lease) (fun _ => rfl) j
  refine ⟨?_, ?_, ?_, told⟩ <;> simp only [announce] <;> split <;> rfl

theorem frame_abandon {s : Scene} {i : Nat} {inside : Option Role} :
    s.Frame (s.abandon i inside) := by
  cases inside with
  | none => exact ⟨rfl, rfl, rfl, fun _ => rfl⟩
  | some role => exact frame_modifyReplica fun _ => rfl

/-- **A question to a process** leaves the store, the clock and the participants alone. -/
theorem frame_ask {s t : Scene} {i : Nat} {q : Query} {a : q.Answer}
    (h : s.ask i q = some (a, t)) : s.Frame t := by
  cases q with
  | now =>
    obtain ⟨now, -, e⟩ := Option.map_eq_some_iff.1 h
    cases e; exact ⟨rfl, rfl, rfl, fun _ => rfl⟩
  | knownDeployment => cases h; exact ⟨rfl, rfl, rfl, fun _ => rfl⟩
  | setKnownDeployment name => cases h; exact frame_modifyReplica fun _ => rfl
  | heldLease => cases h; exact ⟨rfl, rfl, rfl, fun _ => rfl⟩
  | announce kind lease => cases h; exact frame_announce
  | enter role => cases h; exact frame_modifyReplica fun _ => rfl
  | leave role => cases h; exact frame_modifyReplica fun _ => rfl

end Scene

/-! ## Later histories -/

namespace History

/-- The history `h'` comes after `h`. -/
structure Grows (h h' : History) : Prop where
  log : h.log <:+ h'.log
  origin : h'.origin = h.origin
  now : h.now ≤ h'.now
  ticking : h'.scene.ticking = h.scene.ticking
  participant : ∀ i, h'.scene.participant? i = h.scene.participant? i

theorem Grows.refl (h : History) : Grows h h :=
  ⟨List.suffix_refl _, rfl, Instant.le_refl _, rfl, fun _ => rfl⟩

theorem Grows.trans {a b c : History} (h : Grows a b) (k : Grows b c) : Grows a c :=
  ⟨h.log.trans k.log, k.origin.trans h.origin, Instant.le_trans h.now k.now,
    k.ticking.trans h.ticking, fun i => (k.participant i).trans (h.participant i)⟩

theorem Grows.participantOf {h h' : History} (g : Grows h h') (i : Nat) :
    h'.scene.participantOf i = h.scene.participantOf i := by
  rw [Scene.participantOf, Scene.participantOf, g.participant]

theorem Grows.podOf {h h' : History} (g : Grows h h') (i : Nat) :
    h'.scene.podOf i = h.scene.podOf i := by
  rw [Scene.podOf, Scene.podOf, g.participantOf]

/-- What was ever stored stays so. -/
theorem Grows.leases {h h' : History} (g : Grows h h') {l : Lease} (hl : l ∈ h.leases) :
    l ∈ h'.leases := by
  simp only [History.leases, List.mem_append, g.origin] at hl ⊢
  refine hl.imp_left ?_
  intro hl
  obtain ⟨e, he, hs⟩ := List.mem_filterMap.1 hl
  exact List.mem_filterMap.2 ⟨e, g.log.subset he, hs⟩

/-- The history `h'` comes after `h`, and no lease has been written since. -/
structure Quiet (h h' : History) : Prop extends Grows h h' where
  leases : h'.scene.store.leases = h.scene.store.leases
  version : h'.scene.store.version = h.scene.store.version
  same : h'.log = h.log

theorem Quiet.refl (h : History) : Quiet h h := ⟨.refl h, rfl, rfl, rfl⟩

/-- Without a write the leases ever stored are the same. -/
theorem Quiet.leases_eq {h h' : History} (q : Quiet h h') : h'.leases = h.leases := by
  rw [History.leases, History.leases, q.same, q.origin]

/-- A scene that differs in nothing but what processes remember makes for a later history. -/
theorem quiet_of_frame {h : History} {t : Scene} (k : h.scene.Frame t) :
    Quiet h { h with scene := t } where
  log := List.suffix_refl _
  origin := rfl
  now := by rw [now, now, k.clock]; exact Instant.le_refl _
  ticking := k.ticking
  participant := k.participant
  leases := by rw [← k.store]
  version := by rw [← k.store]
  same := rfl

theorem grows_call (h : History) (i n : Nat) (c : StoreCall) : Grows h (h.call i n c) :=
  ⟨List.suffix_cons _ _, rfl, Instant.le_refl _, rfl, fun _ => rfl⟩

/-- A question to a process writes no lease. -/
theorem quiet_ask {h h' : History} {i : Nat} {q : Query} {a : q.Answer}
    (k : h.ask i q = some (a, h')) : Quiet h h' := by
  obtain ⟨⟨answer, scene⟩, hs, e⟩ := Option.map_eq_some_iff.1 k
  cases e
  exact quiet_of_frame (Scene.frame_ask hs)

theorem grows_ask {h h' : History} {i : Nat} {q : Query} {a : q.Answer}
    (k : h.ask i q = some (a, h')) : Grows h h' := (quiet_ask k).toGrows

/-- While the clock stands still between moves, every question is answered. -/
theorem ask_ne_none {h : History} {i : Nat} {q : Query} (still : h.scene.ticking = false) :
    h.ask i q ≠ none := by
  intro gone
  have gone : h.scene.ask i q = none := Option.map_eq_none_iff.1 gone
  cases q <;> simp [Scene.ask, Scene.now?, still] at gone

/-! ## Calls -/

@[simp] theorem log_call {h : History} {i n : Nat} {c : StoreCall} :
    (h.call i n c).log =
      { errand := n, pod := h.scene.podOf i, time := h.now, call := c, reply := h.reply c
        before := c.written?.bind fun l => h.scene.store.leases.get? l.key } :: h.log := rfl

/-- After a call there is one stored lease more, or none. -/
theorem leases_call {h : History} {i n : Nat} {c : StoreCall} :
    (h.call i n c).leases = (c.stored? (h.reply c)).toList ++ h.leases := by
  simp only [leases, log_call, List.filterMap_cons, Exchange.stored?]
  cases c.stored? (h.reply c) <;> rfl

/-- A call that stores nothing leaves the scene alone. -/
theorem scene_call_of_not_stored {h : History} {i n : Nat} {c : StoreCall}
    (k : c.stored? (h.reply c) = none) : (h.call i n c).scene = h.scene := by
  have same : (h.scene.store.answer c).1 = h.scene.store := MemoryStore.answer_of_not_stored k
  simp only [call, same]

/-- A call that stores a lease has written it, with the next version. -/
theorem store_call_of_stored {h : History} {i n : Nat} {c : StoreCall} {l : Lease}
    (k : c.stored? (h.reply c) = some l) :
    ∃ a, l = h.scene.store.stamped a ∧ (h.call i n c).scene.store = h.scene.store.write a := by
  rcases MemoryStore.stored?_answer k with ⟨a, -, -, hl, hw⟩ | ⟨a, b, -, -, -, hl, hw⟩
  · exact ⟨h.scene.store.created a, hl, hw⟩
  · exact ⟨a, hl, hw⟩

/-- What lies under a key after a call that stored a lease. -/
theorem get?_call_of_stored {h : History} {i n : Nat} {c : StoreCall} {l : Lease} {k : LeaseKey}
    (hs : c.stored? (h.reply c) = some l) :
    (h.call i n c).scene.store.leases.get? k =
      if k = l.key then some l else h.scene.store.leases.get? k := by
  obtain ⟨a, hl, hw⟩ := store_call_of_stored (i := i) (n := n) hs
  have key : l.key = a.key := by rw [hl]; rfl
  rw [hw, MemoryStore.get?_write, ← key, ← hl]

/-- Versions tell apart the leases that were ever stored under one key, and none of them has
gone without another one in its place. -/
structure IsSound (h : History) : Prop where
  key : ∀ k l, h.scene.store.leases.get? k = some l → l.key = k
  stored : ∀ k l, h.scene.store.leases.get? k = some l → l ∈ h.leases
  version : ∀ l ∈ h.leases, ∃ n ≤ h.scene.store.version,
    l.metadata.version = some (MemoryStore.versionText n)
  unique : ∀ l ∈ h.leases, ∀ m ∈ h.leases,
    l.key = m.key → l.metadata.version = m.metadata.version → l = m
  kept : ∀ l ∈ h.leases, (h.scene.store.leases.get? l.key).isSome = true

/-- While no lease is written the history stays sound. -/
theorem IsSound.quiet {h h' : History} (k : h.IsSound) (q : Quiet h h') : h'.IsSound := by
  refine ⟨?_, ?_, ?_, ?_, ?_⟩
  · rw [q.leases]; exact k.key
  · rw [q.leases, q.leases_eq]; exact k.stored
  · rw [q.version, q.leases_eq]; exact k.version
  · rw [q.leases_eq]; exact k.unique
  · rw [q.leases, q.leases_eq]; exact k.kept

/-- A version that is yet to be given out is that of no lease. -/
theorem IsSound.version_ne {h : History} (k : h.IsSound) {l : Lease} (hl : l ∈ h.leases) :
    l.metadata.version ≠ some (MemoryStore.versionText (h.scene.store.version + 1)) := by
  obtain ⟨n, hn, hv⟩ := k.version l hl
  rw [hv]
  intro e
  have := MemoryStore.versionText_injective (Option.some.inj e)
  omega

/-- **Every call keeps the history sound**, whoever makes it. -/
theorem isSound_call {h : History} (k : h.IsSound) (i n : Nat) (c : StoreCall) :
    (h.call i n c).IsSound := by
  cases hc : c.stored? (h.reply c) with
  | none =>
    have scene := scene_call_of_not_stored (i := i) (n := n) hc
    have all : (h.call i n c).leases = h.leases := by rw [leases_call, hc]; rfl
    refine ⟨?_, ?_, ?_, ?_, ?_⟩
    · rw [scene]; exact k.key
    · rw [scene, all]; exact k.stored
    · rw [scene, all]; exact k.version
    · rw [all]; exact k.unique
    · rw [scene, all]; exact k.kept
  | some l =>
    obtain ⟨a, hl, hw⟩ := store_call_of_stored (i := i) (n := n) hc
    have all : ∀ m, m ∈ (h.call i n c).leases ↔ m = l ∨ m ∈ h.leases := by
      intro m
      rw [leases_call, hc]; simp
    have key : l.key = a.key := by rw [hl]; rfl
    have new : l.metadata.version =
        some (MemoryStore.versionText (h.scene.store.version + 1)) := by rw [hl]; rfl
    refine ⟨?_, ?_, ?_, ?_, ?_⟩
    · intro m x hx
      rw [hw, MemoryStore.get?_write] at hx
      split at hx
      · rename_i hm
        rw [← Option.some.inj hx, ← hl, key, hm]
      · exact k.key m x hx
    · intro m x hx
      rw [hw, MemoryStore.get?_write] at hx
      split at hx
      · exact (all x).2 (.inl ((Option.some.inj hx).symm.trans hl.symm))
      · exact (all x).2 (.inr (k.stored m x hx))
    · intro x hx
      rw [hw, MemoryStore.version_write]
      rcases (all x).1 hx with rfl | hx
      · exact ⟨_, Nat.le_refl _, new⟩
      · obtain ⟨v, hv, e⟩ := k.version x hx
        exact ⟨v, by omega, e⟩
    · intro x hx y hy same ver
      rcases (all x).1 hx with rfl | hx <;> rcases (all y).1 hy with rfl | hy
      · rfl
      · exact absurd (ver.symm.trans new) (k.version_ne hy)
      · exact absurd (ver.trans new) (k.version_ne hx)
      · exact k.unique x hx y hy same ver
    · intro x hx
      rw [hw, MemoryStore.get?_write]
      split
      · rfl
      · rcases (all x).1 hx with rfl | hx
        · contradiction
        · exact k.kept x hx

/-- **What a conditional update replaces**: if it was computed from a lease that was once stored,
then from the one that is stored right now. -/
theorem IsSound.eq_of_shows {h : History} (k : h.IsSound) {a b l : Lease} (hl : l ∈ h.leases)
    (key : a.key = l.key) (version : a.metadata.version = l.metadata.version)
    (hb : h.scene.store.leases.get? a.key = some b) (shows : MemoryStore.Shows a b) : b = l := by
  obtain ⟨n, -, hv⟩ := k.version l hl
  rcases shows with none | same
  · rw [version, hv] at none; contradiction
  · refine k.unique b (k.stored _ _ hb) l hl ((k.key _ _ hb).trans key) ?_
    rw [← same, version]

end History

namespace Fleet

/-- **What a move does to the history**: it writes no lease, or it is a call of an errand. -/
theorem quiet_or_call {f g : Fleet} {m : Move} (h : f.turn? m = some g) :
    f.toHistory.Quiet g.toHistory ∨
      ∃ n e c next, m = .go n ∧ f.errands[n]? = some e ∧ e.rest = .call c next ∧
        g.toHistory = f.call e.replica n c := by
  cases change_of_turn? h with
  | begin => exact .inl (.refl _)
  | ask _ _ answer => exact .inl (History.quiet_ask answer)
  | stuck => exact .inl (.refl _)
  | call errand rest => exact .inr ⟨_, _, _, _, rfl, errand, rest, rfl⟩
  | giveUp => exact .inl (History.quiet_of_frame Scene.frame_abandon)
  | restart => exact .inl (History.quiet_of_frame (Scene.frame_modifyReplica fun _ => rfl))
  | advance later =>
    exact .inl ⟨⟨List.suffix_refl _, rfl, Clock.now_le_of_advance? later, rfl, fun _ => rfl⟩, rfl,
      rfl, rfl⟩
  | switch => exact .inl ⟨⟨List.suffix_refl _, rfl, Instant.le_refl _, rfl, fun _ => rfl⟩, rfl, rfl,
      rfl⟩
  | deploy => exact .inl ⟨⟨List.suffix_refl _, rfl, Instant.le_refl _, rfl, fun _ => rfl⟩, rfl, rfl,
      rfl⟩

/-- **A move leads to a later history.** -/
theorem grows_of_turn? {f g : Fleet} {m : Move} (h : f.turn? m = some g) :
    f.toHistory.Grows g.toHistory := by
  rcases quiet_or_call h with quiet | ⟨n, e, c, next, -, -, -, same⟩
  · exact quiet.toGrows
  · exact same ▸ History.grows_call _ _ _ _

/-- Any moves lead to a later history. -/
theorem grows_of_reaches {rule : Fleet → Move → Prop} {f g : Fleet} (run : Reaches rule f g) :
    f.toHistory.Grows g.toHistory := by
  induction run with
  | refl => exact .refl _
  | tail _ turn ih =>
    obtain ⟨m, -, turn⟩ := turn
    exact ih.trans (grows_of_turn? turn)

/-- A move keeps the history sound. -/
theorem isSound_of_turn? {f g : Fleet} {m : Move} (h : f.turn? m = some g) (k : f.IsSound) :
    g.IsSound := by
  rcases quiet_or_call h with quiet | ⟨n, e, c, next, -, -, -, same⟩
  · exact k.quiet quiet
  · exact same ▸ History.isSound_call k _ _ _

end Fleet

end LeasePool
