import LeasePool.Proofs.Fleet.MemberCycle

/-!
# What others do to a replica

In a closed fleet with distinct pods, seen from one replica: which moves are within what a cycle
or a release of its member controller counts on. All are but the calls of its own member cycles,
those of its own releases during a cycle, and the announcement that a lease has been acquired.
-/

namespace LeasePool

/-- Whether two jobs of a replica must not be under way at the same time: a cycle of its member
controller and a release by it. -/
def Job.clashes : Job → Job → Bool
  | cycle .member, release .member | release .member, cycle .member => true
  | _, _ => false

namespace Fleet

/-- What replicas do is up to their controllers, and the releases of one of them and its member
cycles keep apart: it begins a release between cycles only, as a shutdown does. -/
structure Orderly (i : Nat) (f : Fleet) (m : Move) : Prop where
  controlled : f.Controlled m
  apart : ∀ job, m = .begin i job → ∀ (n : Nat) (e : Errand), f.errands[n]? = some e →
    e.replica = i → e.job.clashes job = true → e.rest.isUnderWay = false

/-- Whether that is so for all replicas. -/
def isOrderly (f : Fleet) (m : Move) : Bool :=
  m.isOfController && match m with
    | .begin i job =>
      f.errands.all fun e => !(e.replica == i && e.job.clashes job && e.rest.isUnderWay)
    | _ => true

/-- Replicas with distinct pods and one configuration over an empty store, none of which has done
anything yet or remembers anything. -/
structure IsPristine (p : Pool) (f : Fleet) : Prop extends f.IsFresh p where
  distinct : (f.participants.map (·.pod)).Nodup
  idle : ∀ r ∈ f.scene.replicas, r.restarted = r

variable {f g : Fleet} {m : Move} {p : Pool} {who : Nat → Participant} {i : Nat}

theorem orderly_of_isOrderly (h : f.isOrderly m = true) (i : Nat) : f.Orderly i m := by
  simp only [isOrderly, Bool.and_eq_true] at h
  refine ⟨h.1, ?_⟩
  intro job begins n e he own clash
  subst begins
  have ended := List.all_eq_true.1 h.2 e (List.mem_of_getElem? he)
  simpa [own, clash] using ended

/-- The small pool has distinct pods, which remember nothing at the beginning. -/
theorem isPristine_small (t : Instant) : (small t).IsPristine .small where
  toIsFresh := isFresh_small t
  distinct := by
    rw [small, participants_ofParticipants]
    decide +kernel
  idle r hr := by
    obtain ⟨c, -, rfl⟩ := List.mem_map.1 hr
    rfl

/-! ## Pods -/

/-- With distinct pods nobody else has the pod of a participant. -/
theorem eq_of_pod_eq (distinct : (f.participants.map (·.pod)).Nodup) {j : Nat}
    (hi : (f.scene.participant? i).isSome = true) (hj : (f.scene.participant? j).isSome = true)
    (same : f.scene.podOf j = f.scene.podOf i) : j = i := by
  have pods : ∀ k, (f.scene.participant? k).isSome = true →
      (f.participants.map (·.pod))[k]? = some (f.scene.podOf k) := by
    intro k hk
    obtain ⟨c, hc⟩ := Option.isSome_iff_exists.1 hk
    rw [List.getElem?_map, Scene.podOf, Scene.participantOf, hc, participants, List.getElem?_map]
    rw [Scene.participant?] at hc
    rw [hc]
    rfl
  have known := (List.getElem?_eq_some_iff.1 (pods j hj)).1
  exact (List.getElem?_inj known distinct).1 (by rw [pods j hj, pods i hi, same])

namespace IsClosed

/-- The pods of a closed fleet. -/
theorem podOf_eq (C : f.IsClosed p who) : f.scene.podOf i = (who i).pod := by
  rw [Scene.podOf, C.participant]

/-- Whose memory a move changes in a closed fleet with distinct pods. -/
theorem memory (C : f.IsClosed p who) (distinct : (f.participants.map (·.pod)).Nodup)
    (hi : (f.scene.participant? i).isSome = true) (h : f.turn? m = some g) :
    f.MemoryChange i g m := by
  refine memory_of_turn? h ?_ ?_
  · intro n e he
    obtain ⟨c, hc⟩ := Option.isSome_iff_exists.1 (C.known n e he)
    obtain ⟨r, hr, -⟩ := Option.map_eq_some_iff.1 hc
    exact ⟨r, hr⟩
  · intro n e he other same
    exact other (eq_of_pod_eq distinct hi (C.known n e he) same)

end IsClosed

/-! ## Writes -/

namespace Writes

variable {c : Participant} {job : Job} {h : History} {call : StoreCall} {l : Lease} {pod : String}

/-- Whoever holds a lease after a controller has written it has claimed it in a cycle. -/
theorem of_isHeldBy (w : Writes p c job h call l) (held : l.isHeldBy pod = true) :
    c.pod = pod ∧
      ∃ role, job = .cycle role ∧ (role = .leader → l.name = leaderLeaseName p.name) := by
  cases w with
  | @create role name owners =>
    have held : (c.pool.newLease role name owners).isHeldBy pod = true := held
    simp [Lease.isHeldBy_iff, Pool.newLease] at held
  | @claim b now role does leader =>
    refine ⟨(Lease.isHeldBy_claim.1 held).1, role, does, ?_⟩
    intro leads
    exact Lease.name_edit.trans (leader leads)
  | @release b =>
    have held : (b.edit .release).isHeldBy pod = true := held
    simp at held

/-- A member lease that exists is written by cycles and releases of member controllers only. -/
theorem of_member (w : Writes p c job h call l) (named : p.Names .member l.name)
    (exists_ : (h.scene.store.leases.get? l.key).isSome = true) :
    job = .cycle .member ∨ job = .release .member := by
  have notLeader : l.name ≠ leaderLeaseName p.name := by
    intro leader
    have role := Pool.Names.unique (r := .leader) leader named
    contradiction
  cases w with
  | @create role name owners _ _ free =>
    have found : (h.scene.store.leases.get? ⟨c.pool.ns, name⟩).isSome = true := exists_
    rw [free] at found
    contradiction
  | @claim b now role does leader =>
    cases role with
    | leader => exact absurd (Lease.name_edit.trans (leader rfl)) notLeader
    | member => exact .inl does
  | @release b role does leader =>
    cases role with
    | leader => exact absurd (Lease.name_edit.trans (leader rfl)) notLeader
    | member => exact .inr does

end Writes

/-- Whoever holds a lease in a closed fleet takes part in it. -/
theorem holder_of_reaches {rule : Fleet → Move → Prop}
    (controlled : ∀ f m, rule f m → f.Controlled m) (fresh : f.IsFresh p)
    (run : Reaches rule f g) :
    ∀ l ∈ g.leases, ∀ pod, l.isHeldBy pod = true →
      ∃ i, (g.scene.participant? i).isSome = true ∧ g.scene.podOf i = pod := by
  induction run with
  | refl =>
    intro l hl
    simp [History.leases, fresh.log, fresh.origin] at hl
  | @tail g g' run turn ih =>
    obtain ⟨m, -, turn⟩ := turn
    have C := isClosed_of_reaches controlled fresh run
    have grown := grows_of_turn? turn
    intro l hl pod held
    suffices known : ∃ i, (g.scene.participant? i).isSome = true ∧ g.scene.podOf i = pod by
      obtain ⟨i, hi, own⟩ := known
      exact ⟨i, by rw [grown.participant, hi], by rw [grown.podOf, own]⟩
    rcases quiet_or_call turn with quiet | ⟨n, e, c, next, -, he, hr, same⟩
    · rw [quiet.leases_eq] at hl
      exact ih l hl pod held
    · rw [same, History.leases_call] at hl
      rcases List.mem_append.1 hl with new | old
      · have hs : c.stored? (g.reply c) = some l := Option.mem_toList.1 new
        obtain ⟨own, -⟩ := (C.of_stored he hr hs).of_isHeldBy held
        exact ⟨e.replica, C.known n e he, by rw [C.podOf_eq, own]⟩
      · exact ih l old pod held

/-! ## Others -/

/-- **What others do is within what a member controller counts on.** So is what its replica does
itself, other than announcing that a lease has been acquired, or calling the store in a member
cycle, or in a release during a cycle. -/
theorem IsClosed.rely (C : f.IsClosed p who) (distinct : (f.participants.map (·.pod)).Nodup)
    (hi : (f.scene.participant? i).isSome = true) (job : Job) (h : f.turn? m = some g)
    (asks : ∀ (n : Nat) (e : Errand) name next, m = .go n → f.errands[n]? = some e →
      e.replica = i → e.rest ≠ .ask (.announce .acquired name) next)
    (calls : ∀ (n : Nat) (e : Errand) c next, m = .go n → f.errands[n]? = some e →
      e.replica = i → e.rest = .call c next →
      e.job ≠ .cycle .member ∧ (e.job = .release .member → job ≠ .cycle .member)) :
    Member.Rely p (f.scene.podOf i) i job f.toHistory g.toHistory := by
  have writes : ∀ {n : Nat} {e : Errand} {c : StoreCall} {next : c.Reply → Operation Answer}
      {l : Lease}, f.errands[n]? = some e → e.rest = .call c next →
      c.stored? (f.reply c) = some l → Writes p (who e.replica) e.job f.toHistory c l :=
    fun he hr hs => C.of_stored he hr hs
  refine ⟨grows_of_turn? h, ?_, ?_, ?_⟩
  · intro name hname
    cases C.memory distinct hi h with
    | same same => rwa [same.held] at hname
    | @announced n e kind lease next before own rest held =>
      rw [held] at hname
      split at hname
      · rename_i acquired
        subst acquired
        exact absurd rest (asks n e lease next rfl before own)
      · contradiction
    | entered _ _ _ lease => rwa [lease.held] at hname
    | left _ _ _ lease => rwa [lease.held] at hname
    | abandoned _ _ _ lease => rwa [lease.held] at hname
    | restarted held =>
      rw [held] at hname
      contradiction
  · intro l hl
    rcases quiet_or_call h with quiet | ⟨n, e, c, next, go, he, hr, same⟩
    · exact quiet.holds.1 hl
    · rw [same] at hl
      cases hs : c.stored? (f.reply c) with
      | none => exact (History.holds_call_of_not_stored hs).1 hl
      | some new =>
        rcases History.holds_call_of_stored hs hl with rfl | ⟨-, old⟩
        · -- A lease that the pod has claimed is a member lease claimed in a cycle of the replica.
          obtain ⟨pod, role, does, leader⟩ := (writes he hr hs).of_isHeldBy hl.held
          rw [← C.participant] at pod
          have own := eq_of_pod_eq distinct hi (C.known n e he) pod
          cases role with
          | leader =>
            have role := Pool.Names.unique (r := .leader) (leader rfl) hl.named
            contradiction
          | member => exact absurd does (calls n e c next go he own hr).1
        · exact old
  · intro hj k d named hd
    rcases quiet_or_call h with quiet | ⟨n, e, c, next, go, he, hr, same⟩
    · rw [quiet.claimOf?_eq]
      exact hd
    · rw [same]
      cases hs : c.stored? (f.reply c) with
      | none => rwa [History.claimOf?_call_of_not_stored hs]
      | some l =>
        rw [History.claimOf?_call hs, if_neg]
        · exact hd
        · rintro ⟨pod, rfl⟩
          have own := eq_of_pod_eq distinct hi (C.known n e he) pod
          obtain ⟨known, key, -⟩ := History.of_claimOf? hd
          obtain ⟨cycle, release⟩ := calls n e c next go he own hr
          rcases (writes he hr hs).of_member named (key ▸ C.sound.kept d known) with does | does
          · exact cycle does
          · exact release does hj

end Fleet

end LeasePool
