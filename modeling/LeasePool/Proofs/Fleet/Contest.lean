import LeasePool.Proofs.Fleet.Others

/-!
# Contests for member leases

Replicas of which none holds a member lease of a pool look for one at the same time, and nobody
else writes. Each of them works through a list of its own, which may be out of date. What ties the
lists together is that a lease of the pool is written once at most: it is as it was in the
beginning, or it has been claimed, and the claim is good until the end. So a contender claims
what was vacant in the beginning and has not been claimed yet, it loses a race only for what
somebody else has claimed, and it comes away with nothing only when everything has been claimed.

## Main definitions

* `Contest`: a beginning and a pool.
* `Contest.vacant`: the leases that there are to claim.
* `Contest.Ground`: what holds at all times.
* `Contest.terms`: the terms on which a contender looks for a lease.

## Main statements

* `Contest.Ground.call`: a claim on these terms keeps up what holds.
* `Contest.meets_acquireMember`: a contender keeps to the terms, and what comes of it.
-/

namespace LeasePool

namespace History

/-- The member leases of a pool, as a list of them shows. -/
def membersOf (h : History) (ns pool : String) : List Lease :=
  (h.scene.store.leasesOf ns).filter fun l => (memberSelector pool).selects l.metadata.labels

/-- An errand has written a lease. -/
def HasWritten (h : History) (errand : Nat) (l : Lease) : Prop :=
  ∃ w ∈ h.log, w.errand = errand ∧ w.stored? = some l

/-- Somebody has written a lease under a key. -/
def IsWritten (h : History) (k : LeaseKey) : Prop := ∃ n l, h.HasWritten n l ∧ l.key = k

variable {h h' : History} {i m n : Nat} {c : StoreCall} {l : Lease}

theorem Grows.hasWritten (g : h.Grows h') (H : h.HasWritten n l) : h'.HasWritten n l := by
  obtain ⟨w, hw, rest⟩ := H
  exact ⟨w, g.log.subset hw, rest⟩

theorem Grows.isWritten {k : LeaseKey} (g : h.Grows h') (H : h.IsWritten k) : h'.IsWritten k := by
  obtain ⟨n, l, hw, key⟩ := H
  exact ⟨n, l, g.hasWritten hw, key⟩

/-- What an errand has written after a call. -/
theorem hasWritten_call :
    (h.call i n c).HasWritten m l ↔
      (n = m ∧ c.stored? (h.reply c) = some l) ∨ h.HasWritten m l := by
  simp only [HasWritten, log_call, List.mem_cons, exists_eq_or_imp, Exchange.stored?]

theorem hasWritten_call_of_not_stored (hs : c.stored? (h.reply c) = none) :
    (h.call i n c).HasWritten m l ↔ h.HasWritten m l := by
  rw [hasWritten_call, hs]
  simp

end History

/-- A beginning, and the pool whose member leases everybody looks for. -/
structure Contest where
  start : Fleet
  ns : String
  pool : String

namespace Contest

/-- The member leases that there are. -/
def members (x : Contest) : List Lease := x.start.membersOf x.ns x.pool

/-- The pods of those who may contend. -/
def pods (x : Contest) : List String := x.start.participants.map (·.pod)

/-- The member leases that are available to everybody at the beginning. -/
def vacant (x : Contest) : List Lease :=
  x.members.filter fun l => x.pods.all fun pod => l.availableTo? pod x.start.now = some true

/-- Replicas with distinct pods, none of which holds a member lease, over a store that answers. -/
structure IsOpen (x : Contest) : Prop extends x.start.IsNew where
  online : x.start.scene.store.offline = false
  shared : ∀ c ∈ x.start.participants, c.pool.ns = x.ns
  distinct : x.pods.Nodup
  named : ∀ pod ∈ x.pods, Text.isBlankText pod = false
  away : ∀ l ∈ x.members, ∀ pod ∈ x.pods, l.isHeldBy pod = false

/-- Moreover, claims on the leases that are to be had come to an end some day, as otherwise nobody
would have to respect them, and none of these leases has changed hands so often that one more
change cannot be counted. -/
structure IsRegular (x : Contest) : Prop extends x.IsOpen where
  timed : ∀ l ∈ x.vacant, l.claim.duration.isSome = true
  counted : ∀ l ∈ x.vacant, ∀ pod ∈ x.pods, l.admits pod = true

/-- Up to now no claim has expired that had not at the beginning, and all claims end within the
calendar. -/
structure IsTimely (x : Contest) (h : History) : Prop where
  standing : ∀ l ∈ x.members, l.holder? ≠ none →
    l.expiry ≠ .outOfRange ∧ (¬ l.ExpiredBy x.start.now → ¬ l.ExpiredBy h.now)
  made : ∀ l ∈ h.log.filterMap Exchange.stored?, l.IsGood h.now

/-- The claim of a contender on a lease that was vacant. -/
structure IsClaim (x : Contest) (pod : String) (l : Lease) : Prop where
  contends : pod ∈ x.pods
  vacant : ∃ b ∈ x.vacant, b.key = l.key
  ns : l.metadata.ns = x.ns
  labels : (memberSelector x.pool).selects l.metadata.labels = true
  held : l.isHeldBy pod = true
  timed : l.IsTimed

/-- A lease was vacant, or it is somebody else's for as long as the contest is timely. -/
def VacantOrTaken (x : Contest) (h : History) (pod : String) (l : Lease) : Prop :=
  l ∈ x.vacant ∨ (l ∉ x.vacant ∧ ∃ other, other ≠ pod ∧ l.isHeldBy other = true ∧ l.IsTimed ∧
    ∀ h', h.Grows h' → x.IsTimely h' → l.IsGood h'.now)

/-- What a contender sees when it lists the leases. -/
structure Sees (x : Contest) (h : History) (pod : String) (ls : List Lease) : Prop where
  listed : ∀ l ∈ ls, x.VacantOrTaken h pod l
  /-- What was vacant is listed, unless somebody has claimed it. -/
  all : ∀ b ∈ x.vacant, b ∈ ls ∨ h.IsWritten b.key

/-- What holds at all times. -/
structure Ground (x : Contest) (h : History) : Prop where
  grown : x.start.toHistory.Grows h
  sound : h.IsSound
  online : h.scene.store.offline = false
  timely : x.IsTimely h
  /-- What has not been written is as it was. -/
  initial : ∀ k, ¬ h.IsWritten k →
    h.scene.store.leases.get? k = x.start.scene.store.leases.get? k
  /-- What has been written stays so. -/
  kept : ∀ n l, h.HasWritten n l → h.scene.store.leases.get? l.key = some l
  /-- It is what a contender has claimed. -/
  claims : ∀ w ∈ h.log, ∀ l, w.stored? = some l → x.IsClaim w.pod l

/-- What a contender may call. -/
def MayCall (x : Contest) (pod : String) (_ : History) (c : StoreCall) : Prop :=
  c.written? = none ∨ ∃ b ∈ x.vacant, ∃ t, c = .updateLease (b.edit (.claim pod t))

/-- The terms on which the only errand of a replica looks for a lease. Others do not write in its
name. -/
def terms (x : Contest) (i n : Nat) : Terms where
  replica := i
  errand := n
  holds h := x.Ground h ∧ ∀ w ∈ h.log, w.pod = x.start.scene.podOf i → w.errand = n
  rely h h' := h.Grows h' ∧ ∀ l, h'.HasWritten n l → h.HasWritten n l
  mayAsk _ q := q = .now
  mayCall := x.MayCall (x.start.scene.podOf i)
  mayCrash _ := False
  refl _ := ⟨.refl _, fun _ => id⟩
  trans r s := ⟨r.1.trans s.1, fun l hl => r.2 l (s.2 l hl)⟩
  grows r := r.1

variable {x : Contest} {h h' : History} {i n : Nat} {c : StoreCall} {l b : Lease} {ls : List Lease}
  {pod : String}

theorem IsTimely.mono (T : x.IsTimely h') (g : h.Grows h') : x.IsTimely h where
  standing l hl held := by
    obtain ⟨ends, lasts⟩ := T.standing l hl held
    exact ⟨ends, fun fresh expired => lasts fresh (expired.mono g.now)⟩
  made l hl := by
    obtain ⟨w, hw, hs⟩ := List.mem_filterMap.1 hl
    exact (T.made l (List.mem_filterMap.2 ⟨w, g.log.subset hw, hs⟩)).mono g.now

namespace IsOpen

variable (O : x.IsOpen)
include O

theorem mem_members : l ∈ x.members ↔ x.start.scene.store.leases.get? l.key = some l ∧
    l.metadata.ns = x.ns ∧ (memberSelector x.pool).selects l.metadata.labels = true := by
  refine O.isSound.of_listLeases ?_ l
  simp only [History.reply, MemoryStore.answer, O.online, Bool.false_eq_true, if_false]
  rfl

omit O in
theorem available_of_mem_vacant (hb : b ∈ x.vacant) (hp : pod ∈ x.pods) :
    b.availableTo? pod x.start.now = some true := by
  have all := (List.mem_filter.1 hb).2
  exact of_decide_eq_true (List.all_eq_true.1 all pod hp)

/-- A vacant lease is stored at the beginning. -/
theorem get?_of_mem_vacant (hb : b ∈ x.vacant) :
    x.start.scene.store.leases.get? b.key = some b :=
  (O.mem_members.1 (List.mem_filter.1 hb).1).1

end IsOpen

namespace IsRegular

variable (O : x.IsRegular)
include O

/-- A lease that was vacant, as a contender has claimed it. -/
theorem isClaim {s : MemoryStore} {t : Stamp} (hb : b ∈ x.vacant) (hp : pod ∈ x.pods) :
    x.IsClaim pod (s.stamped (b.edit (.claim pod t))) := by
  obtain ⟨-, sameNs, labels⟩ := O.mem_members.1 (List.mem_filter.1 hb).1
  refine ⟨hp, ⟨b, hb, Lease.key_edit.symm⟩, sameNs, labels, ?_, ?_, ?_⟩
  · exact (Lease.isHeldBy_claim (l := b) (t := t)).2 ⟨rfl, O.named pod hp⟩
  · exact Option.isSome_iff_exists.2 ⟨t, Lease.claim_renewed_claim (l := b) (p := pod)⟩
  · rw [MemoryStore.claim_stamped, Lease.claim_duration_claim]
    exact O.timed b hb

/-- At the beginning everything is as it was. -/
theorem ground (T : x.IsTimely x.start.toHistory) : x.Ground x.start.toHistory where
  grown := .refl _
  sound := O.isSound
  online := O.online
  timely := T
  initial _ _ := rfl
  kept n l hl := by
    obtain ⟨w, hw, -⟩ := hl
    rw [O.log] at hw
    contradiction
  claims w hw := by
    rw [O.log] at hw
    contradiction

end IsRegular

namespace Ground

variable (G : x.Ground h)
include G

/-- While nobody writes, what holds goes on to do so. -/
theorem quiet (q : h.Quiet h') (online : h'.scene.store.offline = false) (T : x.IsTimely h') :
    x.Ground h' where
  grown := G.grown.trans q.toGrows
  sound := G.sound.quiet q
  online := online
  timely := T
  initial k hk := by
    rw [q.leases]
    refine G.initial k fun written => hk (q.toGrows.isWritten written)
  kept n l hl := by
    rw [q.leases]
    refine G.kept n l ?_
    rwa [History.HasWritten, q.same] at hl
  claims := by
    rw [q.same]
    exact G.claims

/-- A lease that a contender has stored is one that was vacant, and was stored until then. -/
theorem of_stored (O : x.IsRegular) (M : x.MayCall pod h c) (hs : c.stored? (h.reply c) = some l) :
    ∃ b ∈ x.vacant, ∃ t, c = .updateLease (b.edit (.claim pod t)) ∧
      l = h.scene.store.stamped (b.edit (.claim pod t)) ∧
      h.scene.store.leases.get? b.key = some b := by
  rcases M with read | ⟨b, hb, t, rfl⟩
  · cases c <;> contradiction
  · rcases MemoryStore.stored?_answer hs with ⟨a, other, -⟩ | ⟨a, d, same, found, shows, hl, -⟩
    · contradiction
    · obtain rfl := StoreCall.updateLease.inj same
      have known := G.grown.leases (O.isSound.stored _ _ (O.get?_of_mem_vacant hb))
      obtain rfl := G.sound.eq_of_shows known Lease.key_edit Lease.version_edit found shows
      exact ⟨d, hb, t, rfl, hl, Lease.key_edit ▸ found⟩

/-- A vacant lease that is stored as it was has not been written: the one who wrote it would hold
it. -/
theorem not_isWritten_of_stored (O : x.IsRegular) (hb : b ∈ x.vacant)
    (hs : h.scene.store.leases.get? b.key = some b) : ¬ h.IsWritten b.key := by
  rintro ⟨n, l, hl, key⟩
  have same := G.kept n l hl
  rw [key, hs, Option.some.injEq] at same
  subst same
  obtain ⟨w, hw, -, hs⟩ := hl
  have claim := G.claims w hw b hs
  have away := O.away b (List.mem_filter.1 hb).1 _ claim.contends
  rw [claim.held] at away
  contradiction

/-- **A claim of what was vacant keeps up what holds**: what it replaces has not been written. -/
theorem call (O : x.IsRegular) (hp : h.scene.podOf i ∈ x.pods) (M : x.MayCall (h.scene.podOf i) h c)
    (T : x.IsTimely (h.call i n c)) : x.Ground (h.call i n c) := by
  have grown := G.grown.trans (History.grows_call h i n c)
  have sound := History.isSound_call G.sound i n c
  have online : (h.call i n c).scene.store.offline = false :=
    MemoryStore.offline_answer.trans G.online
  cases hs : c.stored? (h.reply c) with
  | none =>
    have same : ∀ m l, (h.call i n c).HasWritten m l ↔ h.HasWritten m l := fun m l =>
      History.hasWritten_call_of_not_stored hs
    have scene := History.scene_call_of_not_stored (i := i) (n := n) hs
    refine ⟨grown, sound, online, T, ?_, ?_, ?_⟩
    · intro k hk
      rw [scene]
      refine G.initial k ?_
      rintro ⟨m, l, hl, key⟩
      exact hk ⟨m, l, (same m l).2 hl, key⟩
    · intro m l hl
      rw [scene]
      exact G.kept m l ((same m l).1 hl)
    · intro w hw l hl
      rw [History.log_call] at hw
      rcases List.mem_cons.1 hw with rfl | hw
      · exact absurd (hs.symm.trans hl) nofun
      · exact G.claims w hw l hl
  | some l =>
    obtain ⟨b, hb, t, rfl, hl, found⟩ := G.of_stored O M hs
    have claim : x.IsClaim (h.scene.podOf i) l := hl ▸ O.isClaim hb hp
    have key : l.key = b.key := by rw [hl]; exact Lease.key_edit
    have new := G.not_isWritten_of_stored O hb found
    refine ⟨grown, sound, online, T, ?_, ?_, ?_⟩
    · intro k hk
      rw [History.get?_call_of_stored hs, if_neg]
      · exact G.initial k fun written => hk ((History.grows_call h i n _).isWritten written)
      · rintro rfl
        exact hk ⟨n, l, History.hasWritten_call.2 (.inl ⟨rfl, hs⟩), rfl⟩
    · intro m d hd
      rw [History.get?_call_of_stored hs]
      rcases History.hasWritten_call.1 hd with ⟨-, this⟩ | old
      · obtain rfl := Option.some.inj (hs.symm.trans this)
        exact if_pos rfl
      · rw [if_neg]
        · exact G.kept m d old
        · intro same
          exact new ⟨m, d, old, same.trans key⟩
    · intro w hw d hd
      rw [History.log_call] at hw
      rcases List.mem_cons.1 hw with rfl | hw
      · obtain rfl := Option.some.inj (hs.symm.trans hd)
        exact claim
      · exact G.claims w hw d hd

/-- **A member lease that is stored** is one that was vacant, or it is somebody else's for as long
as the contest is timely. -/
theorem vacant_or_taken (O : x.IsRegular) (hp : pod ∈ x.pods)
    (own : ∀ w ∈ h.log, w.pod = pod → w.stored? = none)
    (stored : h.scene.store.leases.get? l.key = some l) (sameNs : l.metadata.ns = x.ns)
    (labels : (memberSelector x.pool).selects l.metadata.labels = true) :
    x.VacantOrTaken h pod l := by
  by_cases written : h.IsWritten l.key
  · -- It is as somebody has claimed it, who is another one.
    obtain ⟨m, d, hd, key⟩ := id written
    obtain rfl : d = l := Option.some.inj ((key ▸ G.kept m d hd).symm.trans stored)
    obtain ⟨w, hw, -, hs⟩ := id hd
    have claim := G.claims w hw d hs
    refine .inr ⟨fun vacant => G.not_isWritten_of_stored O vacant stored written, w.pod, ?_,
      claim.held, claim.timed, fun h' g T => ?_⟩
    · intro mine
      rw [own w hw mine] at hs
      contradiction
    · exact T.made d (List.mem_filterMap.2 ⟨w, g.log.subset hw, hs⟩)
  · -- It is as it was at the beginning.
    have member : l ∈ x.members := O.mem_members.2 ⟨G.initial _ written ▸ stored, sameNs, labels⟩
    by_cases vacant : l ∈ x.vacant
    · exact .inl vacant
    · obtain ⟨q, -, unavailable⟩ : ∃ q ∈ x.pods, l.availableTo? q x.start.now ≠ some true := by
        simpa [Contest.vacant, member] using vacant
      have held : l.holder? ≠ none := by
        intro free
        simp [Lease.availableTo?, free] at unavailable
      have taken : l.availableTo? q x.start.now = some false := by
        cases answer : l.availableTo? q x.start.now with
        | none =>
          exact absurd (Lease.expiry_of_availableTo?_eq_none answer)
            (G.timely.standing l member held).1
        | some free => cases free <;> simp_all
      obtain ⟨timed, fresh, other, mine⟩ := Lease.of_not_available taken
      refine .inr ⟨vacant, other, ?_, mine, timed, fun h' _ T => ?_⟩
      · rintro rfl
        rw [O.away l member other hp] at mine
        contradiction
      · obtain ⟨ends, lasts⟩ := T.standing l member held
        exact ⟨lasts fresh, ends⟩

/-- **What a contender sees** that has written nothing when it lists the leases. -/
theorem sees (O : x.IsRegular) (hp : pod ∈ x.pods)
    (own : ∀ w ∈ h.log, w.pod = pod → w.stored? = none)
    (hr : h.reply (.listLeases x.ns (memberSelector x.pool)) = .ok ls) :
    x.Sees h pod (Pool.byName ls) := by
  have listed := G.sound.of_listLeases hr
  refine ⟨fun l hl => ?_, fun b hb => ?_⟩
  · obtain ⟨stored, sameNs, labels⟩ := (listed l).1 (Pool.mem_byName.1 hl)
    exact G.vacant_or_taken O hp own stored sameNs labels
  · by_cases written : h.IsWritten b.key
    · exact .inr written
    · obtain ⟨stored, sameNs, labels⟩ := O.mem_members.1 (List.mem_filter.1 hb).1
      refine .inl (Pool.mem_byName.2 ((listed b).2 ⟨?_, sameNs, labels⟩))
      exact G.initial _ written ▸ stored

end Ground

namespace Sees

variable (S : x.Sees h pod ls) (hp : pod ∈ x.pods)
include S hp

/-- There is nothing that it holds. -/
theorem none_own (O : x.IsRegular) : ls.filter (fun l => l.isHeldBy pod) = [] := by
  refine List.filter_eq_nil_iff.2 fun l hl => ?_
  rcases S.listed l hl with vacant | ⟨-, other, ne, held, -⟩
  · simp [O.away l (List.mem_filter.1 vacant).1 _ hp]
  · exact fun mine => ne (Lease.eq_of_isHeldBy held mine)

/-- Later, what was vacant still looks available to it, and nothing else does. -/
theorem available {h' : History} (grown : h.Grows h') (G : x.Ground h') (hl : l ∈ ls) :
    l.availableTo? pod h'.now = some (decide (l ∈ x.vacant)) := by
  rcases S.listed l hl with vacant | ⟨taken, other, ne, held, timed, good⟩
  · rw [Lease.availableTo?_mono (IsOpen.available_of_mem_vacant vacant hp) G.grown.now,
      decide_eq_true vacant]
  · rw [(good h' grown G.timely).keeps_off timed held ne, decide_eq_false taken]

end Sees

/-! ## What a contender does -/

/-- What has come of an attempt to claim one of some leases: a claim of one of them, and nothing
else, or else no claim, and those that were vacant have been claimed. -/
def Outcome (x : Contest) (n : Nat) (ls : List Lease) :
    Except PoolError (Option Lease) → History → Prop
  | .ok (some l), h => ∀ m, h.HasWritten n m ↔ m = l
  | .ok none, h => (∀ m, ¬ h.HasWritten n m) ∧ ∀ b ∈ ls, b ∈ x.vacant → h.IsWritten b.key
  | .error _, _ => False

open Pool Attempt

/-- What has been written in somebody's name stays the same while others act. -/
theorem hasWritten_of_later {m : Lease} (later : (x.terms i n).Later h h') :
    h'.HasWritten n m ↔ h.HasWritten n m :=
  ⟨later.1.2 m, later.1.1.hasWritten⟩

theorem still_of_later (O : x.IsRegular) (later : (x.terms i n).Later h h') :
    h'.scene.ticking = false := later.2.1.grown.ticking.trans O.still

/-- **A claim of a lease that was vacant**: if it loses a race, somebody else has claimed it. -/
theorem meets_renew (O : x.IsRegular) (hp : x.start.scene.podOf i ∈ x.pods) (hl : l ∈ x.vacant)
    (idle : ∀ m, ¬ h.HasWritten n m) :
    (renew l (x.start.scene.podOf i)).run.Meets (x.terms i n) (x.Outcome n [l]) h := by
  rw [renew_of_admits (O.counted l hl _ hp)]
  refine meets_ask fun h₁ l₁ => ⟨rfl, ?_⟩
  intro now k a
  obtain ⟨rfl, rfl⟩ := History.eq_of_ask_now (still_of_later O l₁) a
  refine meets_reply fun h₂ l₂ => ⟨.inr ⟨l, hl, _, rfl⟩, ?_⟩
  have idle₂ : ∀ m, ¬ h₂.HasWritten n m := fun m hm =>
    idle m ((hasWritten_of_later l₁).1 ((hasWritten_of_later l₂).1 hm))
  cases hr : h₂.reply (.updateLease (l.edit (.claim _ (.utc k.now)))) with
  | ok d =>
    have hs : StoreCall.stored? _ (h₂.reply _) = some d := congrArg _ hr
    intro h₃ l₃ m
    rw [hasWritten_of_later l₃]
    simp only [terms, History.hasWritten_call, hs, Option.some.injEq, true_and, idle₂, or_false]
    exact eq_comm
  | error e =>
    have hs : StoreCall.stored? _ (h₂.reply _) = none := congrArg _ hr
    have race := History.race_of_online l₂.2.1.online hr
    simp only [race, if_true]
    intro h₃ l₃
    refine ⟨fun m hm => ?_, fun b hb _ => ?_⟩
    · rw [hasWritten_of_later l₃] at hm
      exact idle₂ m ((History.hasWritten_call_of_not_stored hs).1 hm)
    · obtain rfl := List.mem_singleton.1 hb
      refine Classical.byContradiction fun unwritten => History.get?_ne_of_race hr race ?_
      rw [l₂.2.1.initial b.key fun written => unwritten ?_]
      · exact O.get?_of_mem_vacant hl
      · exact l₃.1.1.isWritten ((History.grows_call h₂ i n _).isWritten written)

/-- The claims of leases in their order, when exactly those that were vacant seem available. -/
theorem meets_claimFirst {now : Instant} (O : x.IsRegular) (hp : x.start.scene.podOf i ∈ x.pods)
    (available : ∀ l ∈ ls,
      l.availableTo? (x.start.scene.podOf i) now = some (decide (l ∈ x.vacant)))
    (idle : ∀ m, ¬ h.HasWritten n m) :
    (claimFirst (x.start.scene.podOf i) now ls).run.Meets (x.terms i n) (x.Outcome n ls) h := by
  induction ls generalizing h with
  | nil =>
    intro h₁ l₁
    exact ⟨fun m hm => idle m ((hasWritten_of_later l₁).1 hm), fun b hb => absurd hb nofun⟩
  | cons l ls ih =>
    have rest := fun b hb => available b (List.mem_cons_of_mem l hb)
    have first := available l List.mem_cons_self
    refine meets_orCrash ?_ fun none => absurd (first.symm.trans none) nofun
    intro free hfree
    obtain rfl := Option.some.inj (first.symm.trans hfree)
    by_cases vacant : l ∈ x.vacant
    · rw [if_pos (by simpa using vacant)]
      refine Attempt.meets_bind ((meets_renew O hp vacant idle).remember (.refl _) |>.weaken ?_)
      rintro r k ⟨-, -, hr⟩
      rcases r with e | _ | m
      · exact hr.elim
      · -- The race was lost for the first of the leases.
        refine ((ih rest hr.1).remember (.refl _)).weaken ?_
        rintro r k' ⟨grown, -, hr'⟩
        rcases r with e | _ | m
        · exact hr'.elim
        · refine ⟨hr'.1, fun b hb hv => ?_⟩
          rcases List.mem_cons.1 hb with rfl | hb
          · exact grown.isWritten (hr.2 b (List.mem_singleton_self b) hv)
          · exact hr'.2 b hb hv
        · exact hr'
      · intro h₁ l₁ d
        rw [hasWritten_of_later l₁]
        exact hr d
    · rw [if_neg (by simpa using vacant)]
      refine (ih rest idle).weaken ?_
      intro r k hr
      rcases r with e | _ | m
      · exact hr
      · refine ⟨hr.1, fun b hb hv => ?_⟩
        rcases List.mem_cons.1 hb with rfl | hb
        · exact absurd hv vacant
        · exact hr.2 b hb hv
      · exact hr

/-- **A contender that has written nothing claims a lease, or all that were vacant have been
claimed.** -/
theorem meets_acquireMember {p : Pool} (O : x.IsRegular) (shared : p.ns = x.ns)
    (hp : x.start.scene.podOf i ∈ x.pods) (idle : ∀ m, ¬ h.HasWritten n m) :
    (p.acquireMember (x.start.scene.podOf i) x.pool).run.Meets (x.terms i n)
      (x.Outcome n x.vacant) h := by
  rw [acquireMember, shared]
  refine meets_call fun h₁ l₁ => ⟨.inl rfl, fun ls hr => ?_, fun e hr => ?_⟩
  · have read := History.grows_call h₁ i n (.listLeases x.ns (memberSelector x.pool))
    have idle₁ : ∀ m, ¬ h₁.HasWritten n m := fun m hm => idle m ((hasWritten_of_later l₁).1 hm)
    have idle₂ : ∀ m, ¬ (h₁.call i n (.listLeases x.ns (memberSelector x.pool))).HasWritten n m :=
      fun m hm => idle₁ m ((History.hasWritten_call_of_not_stored rfl).1 hm)
    have own : ∀ w ∈ h₁.log, w.pod = x.start.scene.podOf i → w.stored? = none := by
      intro w hw mine
      cases hs : w.stored? with
      | none => rfl
      | some m => exact absurd ⟨w, hw, l₁.2.2 w hw mine, hs⟩ (idle₁ m)
    have S := l₁.2.1.sees O hp own hr
    generalize byName ls = sorted at S
    cases sorted with
    | nil =>
      intro h₂ l₂
      refine ⟨fun m hm => ?_, fun b hb _ => ?_⟩
      · exact idle₂ m ((hasWritten_of_later l₂).1 hm)
      · exact l₂.1.1.isWritten (read.isWritten ((S.all b hb).resolve_left List.not_mem_nil))
    | cons first rest =>
      simp only [S.none_own hp O]
      refine meets_ask fun h₂ l₂ => ⟨rfl, ?_⟩
      intro now k a
      obtain ⟨rfl, rfl⟩ := History.eq_of_ask_now (still_of_later O l₂) a
      have grown := read.trans l₂.1.1
      refine ((meets_claimFirst O hp (fun l hl => S.available hp grown l₂.2.1 hl) fun m hm =>
        idle₂ m ((hasWritten_of_later l₂).1 hm)).remember (.refl _)).weaken ?_
      rintro r k' ⟨later, -, hr⟩
      rcases r with e | _ | m
      · exact hr
      · refine ⟨hr.1, fun b hb hv => ?_⟩
        rcases S.all b hb with listed | written
        · exact hr.2 b listed hv
        · exact later.isWritten (grown.isWritten written)
      · exact hr
  · intro h₂ l₂
    have race := History.race_of_online l₁.2.1.online hr
    rw [History.not_race_of_read rfl hr] at race
    contradiction

end Contest

end LeasePool
