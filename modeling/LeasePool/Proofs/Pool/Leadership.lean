import LeasePool.Proofs.Pool.Choosing

/-!
# Taking the lead

What becomes of the leader lease when somebody claims it, whatever was stored before and whichever
calls fail. A leader lease that is missing is created, and then it is what the settings describe.
One that is there is claimed, and that is all: it keeps the duration and the labels that it has,
be they right or wrong. So a leader keeps others off for as long as the lease has always said,
and not at all if it says nothing, and no number of claims makes a lease right that is wrong.
-/

namespace LeasePool

namespace Pool

open Attempt Scene

/-- How somebody takes the lead at `now`, from one scene to another: the leader lease that was
there, or a new one, is claimed, and no other lease is touched. -/
structure TakesLead (p : Pool) (holder name : String) (i : Nat) (now : Instant) (s s' : Scene)
    (old new : Lease) : Prop where
  recalls : s.Recalls i p.topology s'
  online : s'.store.offline = false
  origin : s.store.lease? p.ns name = some old ∨ s.store.lease? p.ns name = none ∧
    p.Tended .leader name ((s.found? i p.topology).toList.map Topology.ownerOf) none old
  free : old.availableTo? holder now = some true
  renewal : old.IsRenewal holder now new
  stored : s'.store.lease? p.ns name = some new
  others : ∀ k ≠ ⟨p.ns, name⟩, s'.store.leases.get? k = s.store.leases.get? k

/-- What a leader lease is after a claim at `now`, against what was there before. -/
structure Inherits (p : Pool) (holder name : String) (now : Instant)
    (owners : List OwnerReference) (before : Option Lease) (l : Lease) : Prop where
  held : l.claim.holder = some holder ∧ l.claim.renewed = some (.utc now)
  /-- A lease that was there was available. Its duration and its metadata stay as they were, but
  for the version. -/
  found : ∀ old, before = some old → old.availableTo? holder now = some true ∧
    l.claim.duration = old.claim.duration ∧
    l.metadata = { old.metadata with version := l.metadata.version }
  /-- A new lease is what the settings describe. -/
  new : before = none → l.claim.duration = some (p.duration.get .leader) ∧
    l.metadata =
      { name, ns := p.ns, owners, labels := Role.leader.labels p.name
        uid := l.metadata.uid, version := l.metadata.version }
  /-- A lease has the duration and the labels that it should have exactly if it had them before,
  or is new. -/
  isManaged_iff :
    isManaged l (Role.leader.labels p.name) (p.duration.get .leader) = true ↔
      ∀ old, before = some old →
        isManaged old (Role.leader.labels p.name) (p.duration.get .leader) = true
  /-- Others are kept off until the duration of the lease has passed, whatever it is... -/
  exclusive : ∀ duration, l.claim.duration = some duration → Text.isBlankText holder = false →
    ∀ requester ≠ holder, ∀ t, l.availableTo? requester t =
      ((Stamp.utc now).plusSeconds? duration.toInt).map fun ends => decide (ends.instant < t)
  /-- ... and not at all if it has none. -/
  unguarded : l.claim.duration = none → ∀ requester t, l.availableTo? requester t = some true

variable {p : Pool} {holder name : String} {i n : Nat} {failing : Failures} {s s' : Scene}
  {t : Instant} {l old new : Lease}

/-! ## How a claim goes -/

/-- A claim on a lease that was read is stored, or it has not succeeded and nothing has
happened. -/
theorem course_contend_cases (holder : String) (i n : Nat) (failing : Failures)
    (online : s.store.offline = false) (stored : s.store.leases.get? l.key = some l) :
    (∃ t, s.now? = some t ∧ l.availableTo? holder t = some true ∧ l.admits holder = true ∧
      s.course i failing n (contend l holder).run =
        ⟨{ s with store := s.store.write (l.edit (.claim holder (.utc t))) }, n + 1,
          some (.ok true)⟩) ∨
    ((s.course i failing n (contend l holder).run).scene = s ∧
      (s.course i failing n (contend l holder).run).result? ≠ some (.ok true)) := by
  cases now : s.now? with
  | none =>
    have asked : s.ask i .now = none := by simp [Scene.ask, now]
    have stuck : s.course i failing n (contend l holder).run = ⟨s, n, none⟩ := by
      change s.course i failing n (.ask .now _) = _
      simp only [course_of_ask, asked]
    right
    simp [stuck]
  | some t =>
    cases free : l.availableTo? holder t with
    | none =>
      have stuck : s.course i failing n (contend l holder).run = ⟨s, n, none⟩ := by
        rw [contend, course_now now, available, free]
        rfl
      right
      simp [stuck]
    | some vacant =>
      cases vacant with
      | false =>
        right
        simp [course_contend_of_not_free now free]
      | true =>
        cases counts : l.admits holder with
        | false =>
          right
          simp [course_contend_of_not_admits now free counts]
        | true =>
          cases fails : failing n with
          | none =>
            left
            exact ⟨t, rfl, free, rfl, course_contend online now stored free counts fails⟩
          | some e =>
            right
            rw [course_contend_of_failing now free counts fails]
            constructor
            · rfl
            · split <;> simp

/-- A lease that has been claimed is stored where it was. -/
theorem lease?_claim (sound : s.store.IsSound) (found : s.store.lease? p.ns name = some l) :
    (s.store.write (l.edit (.claim holder (.utc t)))).lease? p.ns name =
      some (s.store.stamped (l.edit (.claim holder (.utc t)))) := by
  refine MemoryStore.get?_write.trans (if_pos ?_)
  rw [Lease.key_edit, (sound _ _ found).1]

/-- A claim on a lease that was read, if it succeeds. -/
theorem takesLead_contend (sound : s.store.IsSound) (online : s.store.offline = false)
    (found : s.store.lease? p.ns name = some l)
    (led : (s.course i failing n (contend l holder).run).result? = some (.ok true)) :
    ∃ now new, s.now? = some now ∧
      p.TakesLead holder name i now s (s.course i failing n (contend l holder).run).scene
        l new := by
  have key : l.key = ⟨p.ns, name⟩ := (sound _ _ found).1
  have stored : s.store.leases.get? l.key = some l := by rwa [key]
  rcases course_contend_cases holder i n failing online stored with
    ⟨now, shows, free, counts, claimed⟩ | ⟨-, lost⟩
  · refine ⟨now, s.store.stamped (l.edit (.claim holder (.utc now))), shows, ?_⟩
    rw [claimed]
    refine ⟨recalls_write, online, .inl found, free, Lease.isRenewal_claim counts,
      lease?_claim sound found, ?_⟩
    intro k other
    rw [MemoryStore.get?_write, Lease.key_edit, key, if_neg other]
  · contradiction

/-- **Whoever is told to lead has claimed a lease that was available**, and touched no other. -/
theorem takesLead_acquireLeader (sound : s.store.IsSound)
    (led : (s.course i failing n (p.acquireLeader holder name).run).result? =
      some (.ok true)) :
    ∃ now old new, s.now? = some now ∧ p.TakesLead holder name i now s
      (s.course i failing n (p.acquireLeader holder name).run).scene old new := by
  rw [acquireLeader_eq] at led ⊢
  obtain ⟨through, found?, answered⟩ := exists_answer_of_course led
  have online : s.store.offline = false := by
    by_contra off
    rw [answer_offline (by simpa using off)] at answered
    contradiction
  rw [course_call through (answer_getLease online)] at led ⊢
  cases found : s.store.lease? p.ns name with
  | some l =>
    rw [found] at led
    obtain ⟨now, new, shows, takes⟩ := takesLead_contend sound online found led
    exact ⟨now, l, new, shows, takes⟩
  | none =>
    rw [found] at led
    obtain ⟨l, made⟩ := exists_ok_of_course_then led
    have secures : p.Secures .leader name i failing (n + 1) s
        (s.course i failing (n + 1) (p.ensure .leader name).run) := secures_ensure sound online
    have there := secures.read l made
    -- Without a lease to begin with, there is one only if no call has failed.
    have spare : failing.Spare (n + 1)
        (s.course i failing (n + 1) (p.ensure .leader name).run).calls := by
      by_contra spoilt
      rw [secures.failed spoilt, found] at there
      contradiction
    obtain ⟨l', there', tended⟩ := (secures.spared spare).tended sound
    obtain rfl := Option.some.inj (there.symm.trans there')
    rw [course_then_of_ok made] at led ⊢
    obtain ⟨now, new, shows, takes⟩ :=
      takesLead_contend (isSound_course sound) (online_course online) there led
    refine ⟨now, l, new, secures.recalls.now.symm.trans shows, ?_⟩
    exact
      { recalls := secures.recalls.trans takes.recalls
        online := takes.online
        origin := .inr ⟨found, found ▸ tended⟩
        free := takes.free
        renewal := takes.renewal
        stored := takes.stored
        others := fun k other => (takes.others k other).trans (secures.others sound other) }

/-! ## What a claim leaves behind -/

/-- Whether a lease is right is up to its duration and its labels. -/
theorem isManaged_congr {labels : Labels} {duration : Int32}
    (same : new.claim.duration = old.claim.duration)
    (same' : new.metadata.labels = old.metadata.labels) :
    isManaged new labels duration = true ↔ isManaged old labels duration = true := by
  rw [isManaged_iff, isManaged_iff, same, same']

/-- A leader lease that was claimed keeps what it had. -/
theorem TakesLead.inherits (H : p.TakesLead holder name i t s s' old new) :
    p.Inherits holder name t ((s.found? i p.topology).toList.map Topology.ownerOf)
      (s.store.lease? p.ns name) new := by
  have labels : new.metadata.labels = old.metadata.labels := by rw [H.renewal.metadata]
  have managed :
      isManaged new (Role.leader.labels p.name) (p.duration.get .leader) = true ↔
        isManaged old (Role.leader.labels p.name) (p.duration.get .leader) = true :=
    isManaged_congr H.renewal.duration labels
  constructor
  case held => exact ⟨H.renewal.held, H.renewal.renewed⟩
  case found =>
    intro l there
    rcases H.origin with found | ⟨missing, -⟩
    · obtain rfl := Option.some.inj (there.symm.trans found)
      exact ⟨H.free, H.renewal.duration, H.renewal.metadata⟩
    · rw [missing] at there
      contradiction
  case new =>
    intro none
    rcases H.origin with found | ⟨-, tended⟩
    · rw [none] at found
      contradiction
    · refine ⟨H.renewal.duration.trans tended.duration, ?_⟩
      rw [H.renewal.metadata, (tended.new rfl).2]
  case isManaged_iff =>
    rw [managed]
    rcases H.origin with found | ⟨missing, tended⟩
    · simp [found]
    · simp [missing, tended.isManaged]
  case exclusive =>
    intro duration lasts named requester other u
    have held : new.holder? = some holder := by simp [Lease.holder?, H.renewal.held, named]
    simp only [Lease.availableTo?, held, Lease.expiry, H.renewal.renewed, lasts]
    cases (Stamp.utc t).plusSeconds? duration.toInt with
    | none => rfl
    | some ends => simp [other.symm]
  case unguarded =>
    intro endless requester u
    simp only [Lease.availableTo?, Lease.expiry, H.renewal.renewed, endless]
    split <;> rfl

/-- **A leader lease is right after a claim exactly if it was right before, or missing.** Whatever
is stored and whichever calls fail, whoever is told to lead holds the leader lease, and no other
lease is touched. A lease that was there keeps its duration and its labels, right or wrong, and
keeps others off for no longer than they say. -/
theorem inherits_acquireLeader (sound : s.store.IsSound)
    (led : (s.course i failing n (p.acquireLeader holder name).run).result? =
      some (.ok true)) :
    ∃ now l, s.now? = some now ∧
      (s.course i failing n (p.acquireLeader holder name).run).scene.store.lease? p.ns name =
        some l ∧
      p.Inherits holder name now ((s.found? i p.topology).toList.map Topology.ownerOf)
        (s.store.lease? p.ns name) l ∧
      ∀ k ≠ ⟨p.ns, name⟩,
        (s.course i failing n (p.acquireLeader holder name).run).scene.store.leases.get? k =
          s.store.leases.get? k := by
  obtain ⟨now, old, l, shows, takes⟩ := takesLead_acquireLeader sound led
  exact ⟨now, l, shows, takes.stored, takes.inherits, takes.others⟩

/-- A pool whose leader leases are good for a minute. -/
def minutePool : Pool where
  ns := "ns"
  name := "orders"
  duration := ⟨60, 30⟩
  topology := .fixed 1

/-- A leader lease of that pool that somebody has changed: it does not say for how long a claim is
good, and it passes for a member lease. -/
def driftedLeader : Lease :=
  { metadata :=
      { name := leaderLeaseName "orders", ns := "ns"
        labels := (Role.member.labels "orders").insert "team" "payments" } }

/-- A scene with that lease. -/
def driftedScene : Scene where
  store := MemoryStore.put {} driftedLeader
  clock := .startingAt (.utc ⟨0⟩)

/-- A pod takes the lead in that scene. -/
def claimOfDrifted : Course (Except PoolError Bool) :=
  driftedScene.course 0 (fun _ => none) 0
    (minutePool.acquireLeader "web-0" (leaderLeaseName "orders")).run

theorem inherits_claimOfDrifted :
    driftedScene.store.IsSound ∧ claimOfDrifted.result? = some (.ok true) ∧
      ∃ now l, driftedScene.now? = some now ∧
        claimOfDrifted.scene.store.lease? "ns" (leaderLeaseName "orders") = some l ∧
        minutePool.Inherits "web-0" (leaderLeaseName "orders") now []
          (driftedScene.store.lease? "ns" (leaderLeaseName "orders")) l ∧
        ∀ k ≠ ⟨"ns", leaderLeaseName "orders"⟩,
          claimOfDrifted.scene.store.leases.get? k = driftedScene.store.leases.get? k := by
  have sound : driftedScene.store.IsSound := (MemoryStore.isSound_of_empty rfl).put driftedLeader
  have led : claimOfDrifted.result? = some (.ok true) := by decide +kernel
  exact ⟨sound, led, inherits_acquireLeader sound led⟩

/-- **Nobody corrects the leader lease by leading.** The pod leads, but the lease has got neither
the minute nor the label of a leader lease, and the next one can take it at once. -/
theorem drifted_after_claim :
    claimOfDrifted.result? = some (.ok true) ∧
      ∃ l ∈ claimOfDrifted.scene.store.lease? "ns" (leaderLeaseName "orders"),
        l.isHeldBy "web-0" = true ∧ l.claim.duration ≠ some 60 ∧
        l.metadata.labels.get? isLeaderLabel ≠ some "true" ∧
        l.availableTo? "web-1" ⟨0⟩ = some true := by
  decide +kernel

/-! ## However often the lead is taken -/

/-- A leader lease that is there keeps its duration and its labels through every claim, whatever
comes of it. -/
theorem inherited_acquireLeader (holder : String) (i n : Nat) (failing : Failures)
    (sound : s.store.IsSound) (found : s.store.lease? p.ns name = some old) :
    ∃ l, (s.course i failing n (p.acquireLeader holder name).run).scene.store.lease? p.ns name =
        some l ∧
      l.claim.duration = old.claim.duration ∧ l.metadata.labels = old.metadata.labels := by
  rw [acquireLeader_eq]
  cases fails : failing n with
  | some e =>
    rw [course_call_of_failing fails]
    exact ⟨old, found, rfl, rfl⟩
  | none =>
    cases online : s.store.offline with
    | true =>
      rw [course_call_of_error fails (answer_offline online)]
      exact ⟨old, found, rfl, rfl⟩
    | false =>
      have key : old.key = ⟨p.ns, name⟩ := (sound _ _ found).1
      have stored : s.store.leases.get? old.key = some old := by rwa [key]
      rw [course_call fails (answer_getLease online), found]
      change ∃ l,
        (s.course i failing (n + 1) (contend old holder).run).scene.store.lease? p.ns name =
          some l ∧ _
      rcases course_contend_cases holder i (n + 1) failing online stored with
        ⟨now, -, -, -, claimed⟩ | ⟨idle, -⟩
      · rw [claimed]
        exact ⟨s.store.stamped (old.edit (.claim holder (.utc now))), lease?_claim sound found,
          Lease.claim_duration_claim, rfl⟩
      · rw [idle]
        exact ⟨old, found, rfl, rfl⟩

end Pool

namespace Scene

/-- Scenes that come after `s` in which nobody has touched a leader lease but to claim it, any
number of times and with any outcome. -/
inductive Reigns (ns name : String) (s : Scene) : Scene → Prop
  | refl : Reigns ns name s s
  | claim {s' : Scene} (before : Reigns ns name s s') {p : Pool} (here : p.ns = ns)
    (holder : String) (i n : Nat) (failing : Failures) :
    Reigns ns name s (s'.course i failing n (p.acquireLeader holder name).run).scene
  | elsewhere {s' s'' : Scene} (before : Reigns ns name s s') (sound : s''.store.IsSound)
    (same : s''.store.lease? ns name = s'.store.lease? ns name) : Reigns ns name s s''

variable {ns name : String} {s s' : Scene} {old : Lease}

theorem Reigns.isSound (H : s.Reigns ns name s') (sound : s.store.IsSound) :
    s'.store.IsSound := by
  induction H with
  | refl => exact sound
  | claim _ _ _ _ _ _ ih => exact isSound_course ih
  | elsewhere _ sound' => exact sound'

/-- **Whoever leads, and however often, the duration and the labels stay** what they were found to
be. -/
theorem Reigns.inherited (H : s.Reigns ns name s') (sound : s.store.IsSound)
    (found : s.store.lease? ns name = some old) :
    ∃ l, s'.store.lease? ns name = some l ∧ l.claim.duration = old.claim.duration ∧
      l.metadata.labels = old.metadata.labels := by
  induction H with
  | refl => exact ⟨old, found, rfl, rfl⟩
  | claim before here holder i n failing ih =>
    obtain ⟨l, there, duration, labels⟩ := ih
    obtain ⟨l', there', duration', labels'⟩ :=
      Pool.inherited_acquireLeader holder i n failing (before.isSound sound) (here ▸ there)
    exact ⟨l', here ▸ there', duration'.trans duration, labels'.trans labels⟩
  | elsewhere _ _ same ih =>
    rw [same]
    exact ih

end Scene

end LeasePool
