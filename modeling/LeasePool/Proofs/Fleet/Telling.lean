import LeasePool.Proofs.Fleet.Attendance
import LeasePool.Proofs.Membership.Lifeline

/-!
# What member cycles announce

In a closed fleet with distinct pods a member cycle inside its guard is the only one of its
replica that has anything to announce, and so what it announces fits what the replica holds at
that time, whatever the interleaving.
-/

namespace LeasePool

namespace History

variable {h h' : History} {i : Nat} {st : Standing}

theorem held?_eq_of_standing? (hs : h.scene.standing? i = some st) : h.held? i = st.held := by
  obtain ⟨r, hr, rfl⟩ := Option.map_eq_some_iff.1 hs
  rw [held?, hr]
  rfl

theorem boundTo?_eq_of_standing? (hs : h.scene.standing? i = some st) :
    h.boundTo? i = st.coordinator.currentLease? := by
  obtain ⟨r, hr, rfl⟩ := Option.map_eq_some_iff.1 hs
  rw [boundTo?, hr]
  rfl

theorem participantOf_eq_of_standing? (hs : h.scene.standing? i = some st) :
    h.scene.participantOf i = st.participant := by
  obtain ⟨r, hr, rfl⟩ := Option.map_eq_some_iff.1 hs
  rw [Scene.participantOf, Scene.participant?, hr]
  rfl

theorem eventsOf_eq_of_standing? (hs : h.scene.standing? i = some st) :
    h.eventsOf (h.scene.podOf i) = st.events := by
  rw [Scene.podOf, participantOf_eq_of_standing? hs]
  obtain ⟨r, hr, rfl⟩ := Option.map_eq_some_iff.1 hs
  rfl

/-- An event of a replica has been announced. -/
structure Announced (i : Nat) (kind : EventKind) (lease : String) (h h' : History) : Prop where
  held : h'.held? i = kind.leaves lease
  bound : h'.boundTo? i = kind.leaves lease
  events : h'.eventsOf (h.scene.podOf i) =
    { kind, pool := (h.scene.participantOf i).pool.name, pod := h.scene.podOf i, lease } ::
      h.eventsOf (h.scene.podOf i)

theorem SameLease.trans {a b c : History} (H : a.SameLease i b) (K : b.SameLease i c)
    (pod : b.scene.podOf i = a.scene.podOf i) : a.SameLease i c where
  held := K.held.trans H.held
  bound := K.bound.trans H.bound
  events := by
    rw [← H.events, ← pod]
    exact K.events

/-- An event stays the last one for as long as no other one is announced. -/
theorem Announced.trans {a b c : History} {kind : EventKind} {lease : String}
    (H : a.Announced i kind lease b) (K : b.SameLease i c)
    (pod : b.scene.podOf i = a.scene.podOf i) : a.Announced i kind lease c where
  held := K.held.trans H.held
  bound := K.bound.trans H.bound
  events := by
    rw [← H.events, ← pod]
    exact K.events

/-- What is announced by a replica that has announced nothing else since. -/
theorem SameLease.announced {a b c : History} {kind : EventKind} {lease : String}
    (H : a.SameLease i b) (K : b.Announced i kind lease c) (grown : a.Grows b) :
    a.Announced i kind lease c where
  held := K.held
  bound := K.bound
  events := by
    have events := K.events
    rw [grown.podOf, grown.participantOf, H.events] at events
    exact events

/-- **A question of an operation that tells what fits** changes nothing that is known, unless it
announces an event. -/
theorem tells_of_ask {q : Query} {a : q.Answer} {next : q.Answer → Operation Answer}
    {ending : EventKind} (present : (h.scene.participant? i).isSome = true)
    (tells : (Operation.ask q next).Tells ending (h.held? i))
    (answer : h.ask i q = some (a, h')) :
    (next a).Tells ending (h'.held? i) ∧ (h.SameLease i h' ∨
      ∃ kind lease, q = .announce kind lease ∧ kind.Fits ending (h.held? i) lease ∧
        (next a).IsSilent ∧ h.Announced i kind lease h') := by
  obtain ⟨st, hs⟩ : ∃ st, h.scene.standing? i = some st := by
    obtain ⟨c, hc⟩ := Option.isSome_iff_exists.1 present
    obtain ⟨r, hr, -⟩ := Option.map_eq_some_iff.1 hc
    exact ⟨_, by rw [Scene.standing?, hr]; rfl⟩
  obtain ⟨⟨a', t⟩, ask, eq⟩ := Option.map_eq_some_iff.1 answer
  cases eq
  have pod := (grows_ask answer).podOf i
  rw [held?_eq_of_standing? hs] at tells ⊢
  obtain ⟨st', hs', goesOn, change⟩ := Scene.tells_of_ask hs tells ask
  have held := held?_eq_of_standing? (h := { h with scene := t }) hs'
  have bound := boundTo?_eq_of_standing? (h := { h with scene := t }) hs'
  have events := eventsOf_eq_of_standing? (h := { h with scene := t }) hs'
  rw [pod] at events
  refine ⟨held ▸ goesOn, ?_⟩
  rcases change with rfl | ⟨kind, lease, announce, fits, silent, rfl⟩
  · exact .inl ⟨held.trans (held?_eq_of_standing? hs).symm,
      bound.trans (boundTo?_eq_of_standing? hs).symm,
      events.trans (eventsOf_eq_of_standing? hs).symm⟩
  · refine .inr ⟨kind, lease, announce, fits, silent, held, ?_, ?_⟩
    · exact bound.trans Coordinator.currentLease?_deliver
    · rw [events, eventsOf_eq_of_standing? hs, Scene.podOf, participantOf_eq_of_standing? hs]
      rfl

end History

/-- Who has nothing more to do has nothing to announce. -/
theorem Operation.tells_of_not_isUnderWay {α : Type} {ending : EventKind} {held : Option String}
    {x : Operation α} (h : x.isUnderWay = false) : x.Tells ending held := by
  cases x with
  | done a => trivial
  | crash => trivial
  | call c next => contradiction
  | ask q next => contradiction

namespace Fleet

variable {f g : Fleet} {m : Move} {p : Pool} {who : Nat → Participant} {i n : Nat} {e : Errand}

/-- The member cycles of a replica that are inside their guard announce nothing but what fits what
the replica holds. -/
def Tells (i : Nat) (f : Fleet) : Prop :=
  ∀ (n : Nat) (e : Errand), f.errands[n]? = some e → e.replica = i → e.inside = some .member →
    e.rest.Tells .lost (f.held? i)

namespace IsAttended

variable (A : f.IsAttended p who i)
include A

/-- While a member cycle is under way inside its guard, nobody else changes what is known of the
membership of the replica, unless that restarts. -/
theorem sameLease_of_ne (h : f.turn? m = some g) (he : f.errands[n]? = some e)
    (own : e.replica = i) (inside : e.inside = some .member) (underWay : e.rest.isUnderWay = true)
    (notGo : m ≠ .go n) (stays : m ≠ .restart i) : f.toHistory.SameLease i g.toHistory := by
  cases A.memory A.distinct A.present h with
  | same same => exact same.toSameLease
  | @announced k d kind lease next hd mine rest =>
    obtain ⟨-, ⟨-, there⟩ | release⟩ := A.mayAnnounce hd mine rest
    · obtain rfl := A.attends.single n k e d he hd own mine inside there
      exact absurd rfl notGo
    · have cycle := A.attends.roles n e he own inside
      have ended := A.attends.apart n k e d he hd own mine cycle release underWay
      rw [rest] at ended
      contradiction
  | entered _ _ _ lease => exact lease
  | left _ _ _ lease => exact lease
  | abandoned _ _ _ lease => exact lease
  | restarted => exact absurd rfl stays

/-- **A move keeps the cycles of a replica to what fits.** -/
theorem tells_turn (tells : f.Tells i) (h : f.turn? m = some g) : g.Tells i := by
  intro n e he own inside
  have cycle := A.roles_turn h he own inside
  cases fate_of_turn? h he with
  | kept before notGo _ stays =>
    cases underWay : e.rest.isUnderWay with
    | false => exact Operation.tells_of_not_isUnderWay underWay
    | true =>
      rw [(A.sameLease_of_ne h before own inside underWay notGo (own ▸ stays)).held]
      exact tells n e before own inside
  | givenUp => contradiction
  | restarted => contradiction
  | @asked _ d q next a before rest answer =>
    have own : d.replica = i := own
    have cycle : d.job = .cycle .member := cycle
    have S := A.attends.cycles n d before own cycle
    have H := tells n d before own
    rw [own] at answer
    rw [rest] at S H
    change q.inside d.inside a = some .member at inside
    change (next a).Tells .lost (g.held? i)
    clear he
    generalize d.inside = role at S H inside
    cases S.asking with
    | entering =>
      cases a with
      | false => contradiction
      | true => exact Participant.tells_acquire.bind fun _ _ => trivial
    | working => exact (History.tells_of_ask A.present (H rfl) answer).1
    | leaving => trivial
  | stuck _ _ answer => exact absurd answer (History.ask_ne_none A.still)
  | @called _ d c next before rest same =>
    have H := tells n d before own inside
    rw [rest] at H
    rw [same]
    exact H (f.reply c)
  | begun => contradiction

end IsAttended

/-- The cycles of a replica tell what fits at all times. -/
theorem tells_of_reaches (pristine : f.IsPristine p)
    (present : (f.scene.participant? i).isSome = true) (run : Reaches (Orderly i) f g) :
    g.Tells i := by
  induction run with
  | refl =>
    intro n e he
    rw [pristine.errands] at he
    contradiction
  | @tail g g' run turn ih =>
    obtain ⟨m, -, turn⟩ := turn
    exact (isAttended_of_reaches pristine present run).tells_turn ih turn

end Fleet

end LeasePool
