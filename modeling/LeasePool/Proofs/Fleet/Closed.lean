import LeasePool.Proofs.Fleet.Discipline
import LeasePool.Proofs.Lease.Naming

/-!
# Closed fleets

Replicas with the same configuration over a store that nobody else writes, doing nothing but the
cycles and the releases of their controllers. All leases are then leases of the pool from the
beginning, with the labels and the duration that they should have, so corrections never happen:
leases are created, claimed and released, and nothing else.
-/

namespace LeasePool

namespace Pool

/-- The configuration that replicas of one pool share. Where they look for the number of members
and the owners of leases is up to each of them. -/
def Agrees (p q : Pool) : Prop := p.ns = q.ns ∧ p.name = q.name ∧ p.duration = q.duration

/-- Whether a name is one for leases of a role. -/
def Names (p : Pool) : Role → String → Prop
  | .leader, name => name = leaderLeaseName p.name
  | .member, name => ∃ ordinal, name = memberLeaseName p.name ordinal

theorem Agrees.names {p q : Pool} (h : p.Agrees q) {role : Role} {name : String}
    (hn : p.Names role name) : q.Names role name := by
  cases role with
  | leader => rw [Names, ← h.2.1]; exact hn
  | member => rw [Names, ← h.2.1]; exact hn

/-- No name is for both roles. -/
theorem Names.unique {p : Pool} {r s : Role} {name : String} (hr : p.Names r name)
    (hs : p.Names s name) : r = s := by
  cases r <;> cases s
  · rfl
  · obtain ⟨ordinal, hs⟩ := hs
    exact absurd (hr.symm.trans hs) leaderLeaseName_ne_memberLeaseName
  · obtain ⟨ordinal, hr⟩ := hr
    exact absurd (hs.symm.trans hr) leaderLeaseName_ne_memberLeaseName
  · rfl

/-- A lease is as the pool wants it: its managed members are those of its role, and whoever holds
it has renewed the claim. -/
structure Conforms (p : Pool) (role : Role) (l : Lease) : Prop where
  ns : l.metadata.ns = p.ns
  name : p.Names role l.name
  labels : l.metadata.labels = role.labels p.name
  duration : l.claim.duration = some (p.duration.get role)
  renewed : ∀ holder, l.isHeldBy holder = true → l.claim.renewed.isSome = true

variable {p : Pool} {role : Role} {l : Lease}

/-- A lease with a holder has what it takes to expire. -/
theorem Conforms.isTimed (h : p.Conforms role l) {holder : String}
    (held : l.isHeldBy holder = true) : l.IsTimed :=
  ⟨h.renewed holder held, by rw [h.duration]; rfl⟩

/-- Labels that are set over themselves stay what they are. -/
theorem override_self {labels : Labels} : labels.override labels = labels := by
  refine Table.ext_get? ?_
  intro k
  rw [Table.get?_override, Option.or_self]

/-- A lease that is as it should be is not corrected. -/
theorem Conforms.isManaged (h : p.Conforms role l) :
    Pool.isManaged l (role.labels p.name) (p.duration.get role) = true := by
  have same : l.edit (.manage (role.labels p.name) (p.duration.get role)) = l := by
    rw [← h.labels]
    simp only [Lease.edit, override_self, ← h.duration]
  simp [Pool.isManaged, same]

theorem conforms_newLease {name : String} {owners : List OwnerReference} {s : MemoryStore}
    (hn : p.Names role name) :
    p.Conforms role (s.stamped (s.created (p.newLease role name owners))) where
  ns := rfl
  name := hn
  labels := rfl
  duration := rfl
  renewed holder held := by simp [Lease.isHeldBy_iff, newLease] at held

theorem Conforms.claim (h : p.Conforms role l) {s : MemoryStore} {holder : String} {t : Stamp} :
    p.Conforms role (s.stamped (l.edit (.claim holder t))) where
  ns := h.ns
  name := h.name
  labels := h.labels
  duration := Lease.claim_duration_claim.trans h.duration
  renewed _ _ := by
    rw [MemoryStore.claim_stamped, Lease.claim_renewed_claim]
    rfl

theorem Conforms.release (h : p.Conforms role l) {s : MemoryStore} :
    p.Conforms role (s.stamped (l.edit .release)) where
  ns := h.ns
  name := h.name
  labels := h.labels
  duration := h.duration
  renewed holder held := by
    have : (l.edit .release).isHeldBy holder = true := held
    simp at this

end Pool

namespace Fleet

/-- Replicas with one configuration over an empty store, and nothing has been done yet. -/
structure IsFresh (p : Pool) (f : Fleet) : Prop where
  errands : f.errands = []
  log : f.log = []
  origin : f.origin = []
  empty : f.scene.store.leases = .empty
  still : f.scene.ticking = false
  shared : ∀ c ∈ f.participants, c.pool.Agrees p
  named : ∀ c ∈ f.participants, Text.isBlankText c.pod = false

end Fleet

namespace Job

/-- Whether a job is one that controllers do. -/
def isOfController : Job → Bool
  | cycle _ | release _ => true
  | _ => false

variable {c : Participant} {job : Job}

/-- Controllers create and correct leases in leader cycles only, each with a name for its role. -/
theorem manages_of_controller {role : Role} {name : String} (hj : job.isOfController = true)
    (hm : (job.warrant c).manages role name) :
    job = .cycle .leader ∧ c.pool.Names role name := by
  cases job with
  | cycle r =>
    cases r with
    | leader => cases role <;> exact ⟨rfl, hm⟩
    | member => contradiction
  | release r => cases r <;> contradiction
  | _ => contradiction

/-- Controllers claim leases for their own pod, and in leader cycles the leader lease only. -/
theorem claims_of_controller {holder name : String} (hj : job.isOfController = true)
    (hc : (job.warrant c).claims holder name) :
    holder = c.pod ∧ ∃ role, job = .cycle role ∧
      (role = .leader → name = leaderLeaseName c.pool.name) := by
  cases job with
  | cycle r =>
    cases r with
    | leader => exact ⟨hc.1, _, rfl, fun _ => hc.2⟩
    | member => exact ⟨hc, _, rfl, nofun⟩
  | release r => cases r <;> contradiction
  | _ => contradiction

/-- Controllers look at the present claim before they claim a lease. -/
theorem not_isBlind_of_controller (hj : job.isOfController = true) :
    ¬ (job.warrant c).isBlind := by
  rcases job with ⟨_ | _⟩ | ⟨_ | _⟩ | _
  all_goals first | exact id | contradiction

/-- Controllers give up the claim of their own pod, and as leaders on the leader lease only. -/
theorem releases_of_controller {holder name : String} (hj : job.isOfController = true)
    (hw : (job.warrant c).releases holder name) :
    holder = c.pod ∧ ∃ role, job = .release role ∧
      (role = .leader → name = leaderLeaseName c.pool.name) := by
  cases job with
  | cycle r => cases r <;> contradiction
  | release r =>
    cases r with
    | leader => exact ⟨hw.1, _, rfl, fun _ => hw.2⟩
    | member => exact ⟨hw, _, rfl, nofun⟩
  | _ => contradiction

/-- Controllers enter the guard of their role only, and in cycles only. -/
theorem enters_of_controller {role : Role} (hj : job.isOfController = true)
    (he : (job.warrant c).enters role) : job = .cycle role := by
  rcases job with ⟨_ | _⟩ | ⟨_ | _⟩ | _
  · exact he ▸ rfl
  · exact he ▸ rfl
  · exact he.elim
  · exact he.elim
  all_goals contradiction

/-- Member controllers announce events, and nobody else does. -/
theorem announces_of_controller (hj : job.isOfController = true) (ha : (job.warrant c).announces) :
    job = .cycle .member ∨ job = .release .member := by
  rcases job with ⟨_ | _⟩ | ⟨_ | _⟩ | _
  · exact ha.elim
  · exact .inl rfl
  · exact ha.elim
  · exact .inr rfl
  all_goals contradiction

end Job

/-- Whether a move is one that controllers make, or one that nobody makes. -/
def Move.isOfController : Move → Bool
  | .begin _ job => job.isOfController
  | _ => true

namespace Fleet

/-- What replicas do is up to their controllers. -/
def Controlled (_ : Fleet) (m : Move) : Prop := m.isOfController = true

theorem Controlled.informed {f : Fleet} {m : Move} (h : f.Controlled m) : f.Informed m := by
  cases m with
  | begin i job =>
    cases job with
    | renew l holder => simp [Controlled, Move.isOfController, Job.isOfController] at h
    | _ => trivial
  | _ => trivial

/-- What holds of a closed fleet at all times. -/
structure IsClosed (p : Pool) (who : Nat → Participant) (f : Fleet) : Prop
    extends IsDisciplined who f where
  jobs : ∀ (n : Nat) (e : Errand), f.errands[n]? = some e → e.job.isOfController = true
  shared : ∀ c ∈ f.participants, c.pool.Agrees p
  named : ∀ c ∈ f.participants, Text.isBlankText c.pod = false
  /-- All leases are as the pool wants them. -/
  conforms : ∀ l ∈ f.leases, ∃ role, p.Conforms role l

variable {f g : Fleet} {m : Move} {p : Pool} {who : Nat → Participant}

/-- Participants with one configuration are a closed fleet at its beginning. -/
theorem isFresh_ofParticipants {cs : List Participant} (t : Instant)
    (shared : ∀ c ∈ cs, c.pool.Agrees p) (named : ∀ c ∈ cs, Text.isBlankText c.pod = false) :
    (ofParticipants cs t).IsFresh p where
  errands := rfl
  log := rfl
  origin := rfl
  empty := rfl
  still := rfl
  shared := by rwa [participants_ofParticipants]
  named := by rwa [participants_ofParticipants]

theorem IsFresh.isNew (h : f.IsFresh p) : f.IsNew where
  errands := h.errands
  log := h.log
  origin := by rw [h.origin, h.empty]; rfl
  store := MemoryStore.isSound_of_empty h.empty
  still := h.still

theorem IsFresh.isClosed (h : f.IsFresh p) : f.IsClosed p f.scene.participantOf where
  toIsDisciplined := h.isNew.isDisciplined
  jobs n e he := by rw [h.errands] at he; contradiction
  shared := h.shared
  named := h.named
  conforms l hl := by simp [History.leases, h.log, h.origin] at hl

/-- How an errand of a controller writes a lease: it creates one, it claims one, or it gives one
up. -/
inductive Writes (p : Pool) (c : Participant) (job : Job) (h : History) :
    StoreCall → Lease → Prop
  | create {role : Role} {name : String} {owners : List OwnerReference}
    (does : job = .cycle .leader) (named : p.Names role name)
    (free : h.scene.store.leases.get? ⟨c.pool.ns, name⟩ = none) :
    Writes p c job h (.createLease (c.pool.newLease role name owners))
      (h.scene.store.stamped (h.scene.store.created (c.pool.newLease role name owners)))
  | claim {b : Lease} {now : Instant} {role : Role} (does : job = .cycle role)
    (leader : role = .leader → b.name = leaderLeaseName p.name)
    (stored : h.scene.store.leases.get? b.key = some b) (past : now ≤ h.now)
    (free : b.isHeldBy c.pod = true ∨ ∃ seen ≤ h.now, b.availableTo? c.pod seen = some true) :
    Writes p c job h (.updateLease (b.edit (.claim c.pod (.utc now))))
      (h.scene.store.stamped (b.edit (.claim c.pod (.utc now))))
  | release {b : Lease} {role : Role} (does : job = .release role)
    (leader : role = .leader → b.name = leaderLeaseName p.name)
    (stored : h.scene.store.leases.get? b.key = some b) (held : b.isHeldBy c.pod = true) :
    Writes p c job h (.updateLease (b.edit .release)) (h.scene.store.stamped (b.edit .release))

/-- **How leases are written** in a closed fleet. -/
theorem IsClosed.of_stored (C : f.IsClosed p who) {n : Nat} {e : Errand} {c : StoreCall}
    {next : c.Reply → Operation Answer} {l : Lease} (he : f.errands[n]? = some e)
    (hr : e.rest = .call c next) (hs : c.stored? (f.reply c) = some l) :
    Writes p (who e.replica) e.job f.toHistory c l := by
  have agrees := C.shared _ (C.mem_participants he)
  have controlled := C.jobs n e he
  rcases (C.allows he hr).of_stored C.sound hs with
    ⟨role, lease, owners, rfl, manages, free, rfl⟩ | ⟨b, edit, rfl, hb, rfl, why⟩
  · obtain ⟨job, named⟩ := Job.manages_of_controller controlled manages
    exact .create job (agrees.names named) free
  · cases why with
    | @manage role manages _ wrong =>
      -- The lease has a name for the role, and so its managed members are right.
      obtain ⟨role', conforms⟩ := C.conforms b (C.sound.stored _ _ hb)
      have named := agrees.names (Job.manages_of_controller controlled manages).2
      obtain rfl := named.unique conforms.name
      rw [agrees.2.1, agrees.2.2, conforms.isManaged] at wrong
      contradiction
    | @claim holder now claims past counts free =>
      obtain ⟨rfl, role, job, leader⟩ := Job.claims_of_controller controlled claims
      rw [agrees.2.1] at leader
      exact .claim job leader hb past (free.resolve_left (Job.not_isBlind_of_controller controlled))
    | @release holder releases held =>
      obtain ⟨rfl, role, job, leader⟩ := Job.releases_of_controller controlled releases
      rw [agrees.2.1] at leader
      exact .release job leader hb held

/-- What a controller has stored is as the pool wants it. -/
theorem Writes.conforms {c : Participant} {job : Job} {h : History} {call : StoreCall} {l : Lease}
    (w : Writes p c job h call l) (agrees : c.pool.Agrees p) (k : h.IsSound)
    (all : ∀ l ∈ h.leases, ∃ role, p.Conforms role l) : ∃ role, p.Conforms role l := by
  cases w with
  | @create role name owners _ named _ =>
    have same : c.pool.newLease role name owners = p.newLease role name owners := by
      rw [Pool.newLease, Pool.newLease, agrees.1, agrees.2.1, agrees.2.2]
    rw [same]
    exact ⟨role, Pool.conforms_newLease named⟩
  | claim _ _ stored _ _ =>
    obtain ⟨role, conforms⟩ := all _ (k.stored _ _ stored)
    exact ⟨role, conforms.claim⟩
  | release _ _ stored _ =>
    obtain ⟨role, conforms⟩ := all _ (k.stored _ _ stored)
    exact ⟨role, conforms.release⟩

/-- **A move keeps a closed fleet closed.** -/
theorem IsClosed.turn (C : f.IsClosed p who) (h : f.turn? m = some g) (hm : f.Controlled m) :
    g.IsClosed p who := by
  have participants := participants_eq_of_grows (grows_of_turn? h)
  refine ⟨C.toIsDisciplined.turn h hm.informed, ?_, ?_, ?_, ?_⟩
  · intro n e he
    rcases errand_of_turn? h he with ⟨d, hd, -, same⟩ | ⟨i, job, r, rfl, -, rfl⟩
    · rw [same]
      exact C.jobs n d hd
    · exact hm
  · rw [participants]
    exact C.shared
  · rw [participants]
    exact C.named
  · intro l hl
    rcases quiet_or_call h with quiet | ⟨n, e, c, next, -, he, hr, same⟩
    · rw [quiet.leases_eq] at hl
      exact C.conforms l hl
    · rw [same, History.leases_call] at hl
      rcases List.mem_append.1 hl with new | old
      · have hs : c.stored? (f.reply c) = some l := Option.mem_toList.1 new
        exact (C.of_stored he hr hs).conforms (C.shared _ (C.mem_participants he)) C.sound
          C.conforms
      · exact C.conforms l old

/-- **A closed fleet stays closed**, whatever its controllers do. -/
theorem isClosed_of_reaches {rule : Fleet → Move → Prop}
    (controlled : ∀ f m, rule f m → f.Controlled m) (fresh : f.IsFresh p)
    (run : Reaches rule f g) : g.IsClosed p f.scene.participantOf := by
  induction run with
  | refl => exact fresh.isClosed
  | tail _ turn ih =>
    obtain ⟨m, hm, turn⟩ := turn
    exact ih.turn turn (controlled _ _ hm)

end Fleet

/-! ## A small pool -/

/-- A pool with one member lease, and claims that are good for half a minute. -/
def Pool.small : Pool :=
  { ns := "ns", name := "pool", duration := ⟨30, 30⟩, topology := .fixed 1 }

/-- The member lease of the small pool. -/
def Pool.smallKey : LeaseKey := ⟨"ns", memberLeaseName "pool" 0⟩

/-- A participant of the small pool. -/
def Participant.small (pod : String) : Participant :=
  { pool := .small, pod, enabled := ⟨true, true⟩ }

/-- Two participants of the small pool that begin at a time. -/
def Fleet.small (time : Instant) : Fleet := ofParticipants [.small "a", .small "b"] time

theorem Fleet.isFresh_small (t : Instant) : (Fleet.small t).IsFresh .small := by
  refine isFresh_ofParticipants t (fun c hc => ?_) (fun c hc => ?_) <;>
    (simp only [List.mem_cons, List.not_mem_nil, or_false] at hc; rcases hc with rfl | rfl)
  · exact ⟨rfl, rfl, rfl⟩
  · exact ⟨rfl, rfl, rfl⟩
  · decide +kernel
  · decide +kernel

end LeasePool
