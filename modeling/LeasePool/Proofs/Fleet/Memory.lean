import LeasePool.Proofs.Fleet.History

/-!
# What replicas remember

The member lease that a process holds, the one its coordinator is bound to, whether a member
cycle is inside the guard, and the events that have been announced: who can change them, and to
what. A process changes its own memory only, and only by announcing, entering and leaving; a
restart empties it.
-/

namespace LeasePool

/-- Whether a question is about neither events nor the guard of the member controller. -/
def Query.isHarmless : Query → Bool
  | .announce .. | .enter .member | .leave .member => false
  | _ => true

namespace History

/-- The member lease that a process holds. -/
def held? (h : History) (i : Nat) : Option String := h.scene.replicas[i]?.bind (·.held)

/-- The member lease that the coordinator of a process is bound to. -/
def boundTo? (h : History) (i : Nat) : Option String :=
  h.scene.replicas[i]?.bind (·.coordinator.currentLease?)

/-- Whether a member cycle of a process is inside its guard. -/
def isRunning (h : History) (i : Nat) : Bool :=
  h.scene.replicas[i]?.any (·.guards.member.isRunning)

/-- The events of a pod, the last one first. -/
def eventsOf (h : History) (pod : String) : List MemberEvent :=
  h.scene.events.filter fun e => e.pod = pod

/-- A replica remembers the same about its lease, and has announced nothing. -/
structure SameLease (i : Nat) (h h' : History) : Prop where
  held : h'.held? i = h.held? i
  bound : h'.boundTo? i = h.boundTo? i
  events : h'.eventsOf (h.scene.podOf i) = h.eventsOf (h.scene.podOf i)

/-- And no member cycle has been let in, and none has left. -/
structure SameMemory (i : Nat) (h h' : History) : Prop extends SameLease i h h' where
  running : h'.isRunning i = h.isRunning i

variable {h h' : History} {i j : Nat}

/-- A replica that is the same remembers the same. -/
theorem sameMemory_of_replica (replica : h'.scene.replicas[i]? = h.scene.replicas[i]?)
    (events : h'.eventsOf (h.scene.podOf i) = h.eventsOf (h.scene.podOf i)) :
    h.SameMemory i h' where
  held := by rw [held?, held?, replica]
  bound := by rw [boundTo?, boundTo?, replica]
  events := events
  running := by rw [isRunning, isRunning, replica]

theorem SameMemory.refl (h : History) (i : Nat) : h.SameMemory i h := ⟨⟨rfl, rfl, rfl⟩, rfl⟩

/-- A change of one replica that keeps the lease held and the coordinator. -/
theorem sameLease_modifyReplica {g : Replica → Replica}
    (hg : ∀ r, (g r).held = r.held ∧ (g r).coordinator = r.coordinator) :
    h.SameLease i { h with scene := h.scene.modifyReplica j g } := by
  refine ⟨?_, ?_, rfl⟩
  · simp only [held?, Scene.replicas_modifyReplica]
    split
    · cases h.scene.replicas[i]? <;> simp [hg]
    · rfl
  · simp only [boundTo?, Scene.replicas_modifyReplica]
    split
    · cases h.scene.replicas[i]? <;> simp [hg]
    · rfl

/-- And one that keeps the guard of the member controller as well. -/
theorem sameMemory_modifyReplica {g : Replica → Replica}
    (hg : ∀ r, (g r).held = r.held ∧ (g r).coordinator = r.coordinator)
    (guards : ∀ r, (g r).guards.member = r.guards.member) :
    h.SameMemory i { h with scene := h.scene.modifyReplica j g } where
  toSameLease := sameLease_modifyReplica hg
  running := by
    simp only [isRunning, Scene.replicas_modifyReplica]
    split
    · cases h.scene.replicas[i]? <;> simp [guards]
    · rfl

/-- A change of another replica. -/
theorem sameMemory_modifyReplica_of_ne {g : Replica → Replica} (other : j ≠ i) :
    h.SameMemory i { h with scene := h.scene.modifyReplica j g } :=
  sameMemory_of_replica (by rw [Scene.replicas_modifyReplica, if_neg other]) rfl

/-! ## Questions -/

/-- A question that is about neither events nor the guard of the member controller changes
nobody's memory of the membership. -/
theorem sameMemory_of_isHarmless {q : Query} {a : q.Answer} (k : h.ask j q = some (a, h'))
    (harmless : q.isHarmless = true) : h.SameMemory i h' := by
  cases q with
  | now =>
    obtain ⟨⟨t, s⟩, hs, e⟩ := Option.map_eq_some_iff.1 k
    obtain ⟨now, -, e'⟩ := Option.map_eq_some_iff.1 hs
    cases e'; cases e
    exact .refl h i
  | knownDeployment => cases k; exact .refl h i
  | setKnownDeployment name =>
    cases k
    exact sameMemory_modifyReplica (fun _ => ⟨rfl, rfl⟩) fun _ => rfl
  | heldLease => cases k; exact .refl h i
  | announce kind lease => contradiction
  | enter role =>
    cases role with
    | leader =>
      cases k
      exact sameMemory_modifyReplica (fun _ => ⟨rfl, rfl⟩) fun _ => rfl
    | member => contradiction
  | leave role =>
    cases role with
    | leader =>
      cases k
      exact sameMemory_modifyReplica (fun _ => ⟨rfl, rfl⟩) fun _ => rfl
    | member => contradiction

/-- The events after an announcement: one more of the pod that announced it, or none. -/
theorem eventsOf_announce {kind : EventKind} {lease pod : String} {a : Unit}
    (k : h.ask j (.announce kind lease) = some (a, h')) (other : h.scene.podOf j ≠ pod) :
    h'.eventsOf pod = h.eventsOf pod := by
  cases k
  simp only [eventsOf, Scene.announce]
  split
  · rfl
  · rename_i r hr
    have own : h.scene.podOf j = r.participant.pod := by
      rw [Scene.podOf, Scene.participantOf, Scene.participant?, hr]
      rfl
    rw [own] at other
    simp [Scene.modifyReplica, other]

/-- A question of a process with another pod. -/
theorem sameMemory_ask_of_ne {q : Query} {a : q.Answer} (k : h.ask j q = some (a, h'))
    (other : j ≠ i) (pods : h.scene.podOf j ≠ h.scene.podOf i) : h.SameMemory i h' := by
  cases q with
  | announce kind lease =>
    refine sameMemory_of_replica ?_ (eventsOf_announce k pods)
    cases k
    change (h.scene.announce j kind lease).replicas[i]? = _
    rw [Scene.replicas_announce, Scene.replicas_modifyReplica, if_neg other]
  | enter role => cases k; exact sameMemory_modifyReplica_of_ne other
  | leave role => cases k; exact sameMemory_modifyReplica_of_ne other
  | _ => exact sameMemory_of_isHarmless k rfl

variable {r : Replica}

/-- What a process remembers after it has announced an event. -/
theorem memory_announce {kind : EventKind} {lease : String} {a : Unit}
    (k : h.ask i (.announce kind lease) = some (a, h')) (hr : h.scene.replicas[i]? = some r) :
    h'.held? i = (if kind = .acquired then some lease else none) ∧
      h'.boundTo? i = (if kind = .acquired then some lease else none) ∧
      h'.isRunning i = h.isRunning i := by
  cases k
  have replica : (h.scene.announce i kind lease).replicas[i]? =
      some (Scene.told r kind lease) := by
    rw [Scene.replicas_announce, Scene.replicas_modifyReplica, if_pos rfl, hr]
    rfl
  refine ⟨?_, ?_, ?_⟩
  · simp only [held?, replica, Option.bind_some, Scene.told]
  · simp only [boundTo?, replica, Option.bind_some, Scene.told, Coordinator.currentLease?_deliver]
  · simp only [isRunning, replica, hr, Option.any_some, Scene.told]

/-- After an announcement a process knows of no lease but the one announced. -/
theorem eq_of_held?_announce {kind : EventKind} {lease name : String} {a : Unit}
    (k : h.ask i (.announce kind lease) = some (a, h')) (hn : h'.held? i = some name) :
    kind = .acquired ∧ name = lease := by
  cases hr : h.scene.replicas[i]? with
  | none =>
    cases k
    have gone : (h.scene.announce i kind lease).replicas[i]? = none := by
      rw [Scene.replicas_announce, Scene.replicas_modifyReplica, if_pos rfl, hr]
      rfl
    simp [held?, gone] at hn
  | some r =>
    rw [(memory_announce k hr).1] at hn
    split at hn
    · rename_i acquired
      exact ⟨acquired, (Option.some.inj hn).symm⟩
    · contradiction

/-- What a process remembers after it has tried to enter a member cycle. -/
theorem memory_enter {a : Bool} (k : h.ask i (.enter .member) = some (a, h'))
    (hr : h.scene.replicas[i]? = some r) :
    a = !h.isRunning i ∧ h.SameLease i h' ∧ h'.isRunning i = true := by
  cases k
  refine ⟨?_, sameLease_modifyReplica fun _ => ⟨rfl, rfl⟩, ?_⟩
  · simp [isRunning, hr, PerRole.get, CycleGuard.tryEnter]
  · simp [isRunning, Scene.replicas_modifyReplica, hr, PerRole.set, PerRole.get,
      CycleGuard.tryEnter]

/-- What a process remembers after a member cycle has ended. -/
theorem memory_leave :
    let h' : History := { h with scene := h.scene.leave i .member }
    h.SameLease i h' ∧ h'.isRunning i = false := by
  refine ⟨sameLease_modifyReplica fun _ => ⟨rfl, rfl⟩, ?_⟩
  simp only [isRunning, Scene.leave, Scene.replicas_modifyReplica, if_true]
  cases h.scene.replicas[i]? <;> simp [PerRole.set, CycleGuard.leave]

end History

/-! ## Moves -/

namespace Fleet

/-- What a move from `f` to `g` does to the memory of a replica. -/
inductive MemoryChange (i : Nat) (f g : Fleet) : Move → Prop
  | same {m : Move} (same : f.toHistory.SameMemory i g.toHistory) : MemoryChange i f g m
  | announced {n : Nat} {e : Errand} {kind : EventKind} {lease : String}
    {next : Unit → Operation Answer} (before : f.errands[n]? = some e) (own : e.replica = i)
    (rest : e.rest = .ask (.announce kind lease) next)
    (held : g.held? i = if kind = .acquired then some lease else none)
    (bound : g.boundTo? i = if kind = .acquired then some lease else none)
    (running : g.isRunning i = f.isRunning i) : MemoryChange i f g (.go n)
  | entered {n : Nat} {e : Errand} {next : Bool → Operation Answer}
    (before : f.errands[n]? = some e) (own : e.replica = i)
    (rest : e.rest = .ask (.enter .member) next) (lease : f.toHistory.SameLease i g.toHistory)
    (running : g.isRunning i = true) : MemoryChange i f g (.go n)
  | left {n : Nat} {e : Errand} {next : Unit → Operation Answer}
    (before : f.errands[n]? = some e) (own : e.replica = i)
    (rest : e.rest = .ask (.leave .member) next) (lease : f.toHistory.SameLease i g.toHistory)
    (running : g.isRunning i = false) : MemoryChange i f g (.go n)
  | abandoned {n : Nat} {e : Errand} (before : f.errands[n]? = some e) (own : e.replica = i)
    (inside : e.inside = some .member) (lease : f.toHistory.SameLease i g.toHistory)
    (running : g.isRunning i = false) : MemoryChange i f g (.giveUp n)
  | restarted (held : g.held? i = none) (bound : g.boundTo? i = none)
    (running : g.isRunning i = false) : MemoryChange i f g (.restart i)

variable {f g : Fleet} {m : Move}

/-- **Whose memory a move changes**: that of the replica whose errand goes on, is given up, or
which restarts. -/
theorem memory_of_turn? (h : f.turn? m = some g) {i : Nat}
    (known : ∀ (n : Nat) (e : Errand), f.errands[n]? = some e →
      ∃ r, f.scene.replicas[e.replica]? = some r)
    (pods : ∀ (n : Nat) (e : Errand), f.errands[n]? = some e → e.replica ≠ i →
      f.scene.podOf e.replica ≠ f.scene.podOf i) : f.MemoryChange i g m := by
  cases change_of_turn? h with
  | begin => exact .same (.refl _ i)
  | @ask n e q next a k before rest answer =>
    by_cases own : e.replica = i
    · obtain ⟨r, hr⟩ := known n e before
      subst own
      cases q with
      | announce kind lease =>
        obtain ⟨held, bound, running⟩ := History.memory_announce answer hr
        exact .announced before rfl rest held bound running
      | enter role =>
        cases role with
        | leader => exact .same (History.sameMemory_of_isHarmless answer rfl)
        | member =>
          obtain ⟨-, lease, running⟩ := History.memory_enter answer hr
          exact .entered before rfl rest lease running
      | leave role =>
        cases role with
        | leader => exact .same (History.sameMemory_of_isHarmless answer rfl)
        | member =>
          cases answer
          obtain ⟨lease, running⟩ := History.memory_leave (h := f.toHistory) (i := e.replica)
          exact .left before rfl rest lease running
      | _ => exact .same (History.sameMemory_of_isHarmless answer rfl)
    · exact .same (History.sameMemory_ask_of_ne answer own (pods n e before own))
  | stuck => exact .same (.refl _ i)
  | call => exact .same (History.sameMemory_of_replica rfl rfl)
  | @giveUp n e before =>
    by_cases own : e.replica = i
    · subst own
      cases inside : e.inside with
      | none => exact .same (.refl _ _)
      | some role =>
        cases role with
        | leader =>
          exact .same (History.sameMemory_modifyReplica (fun _ => ⟨rfl, rfl⟩) fun _ => rfl)
        | member =>
          obtain ⟨lease, running⟩ := History.memory_leave (h := f.toHistory) (i := e.replica)
          exact .abandoned before rfl inside lease running
    · cases inside : e.inside with
      | none => exact .same (.refl _ _)
      | some role => exact .same (History.sameMemory_modifyReplica_of_ne own)
  | @restart j =>
    by_cases own : j = i
    · subst own
      refine .restarted ?_ ?_ ?_
      · simp only [History.held?, Scene.replicas_modifyReplica, if_true]
        cases f.scene.replicas[j]? <;> rfl
      · simp only [History.boundTo?, Scene.replicas_modifyReplica, if_true]
        cases f.scene.replicas[j]? <;> rfl
      · simp only [History.isRunning, Scene.replicas_modifyReplica, if_true]
        cases f.scene.replicas[j]? <;> rfl
    · exact .same (History.sameMemory_modifyReplica_of_ne own)
  | advance => exact .same (History.sameMemory_of_replica rfl rfl)
  | switch => exact .same (History.sameMemory_of_replica rfl rfl)
  | deploy => exact .same (History.sameMemory_of_replica rfl rfl)

end Fleet

end LeasePool
