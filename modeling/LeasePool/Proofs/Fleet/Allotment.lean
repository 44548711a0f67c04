import LeasePool.Proofs.Fleet.Contest
import LeasePool.Proofs.Fleet.Tenure
import Mathlib.Logic.Hydra

/-!
# How member leases are allotted

What comes of a contest, for every interleaving of the calls: as many contenders come away with a
lease as there are leases, or else all of them; no two of them come away with the same one; and
the others know that there is none for them. Nobody is kept going forever, whatever the others
do.
-/

namespace LeasePool

/-! ## Errands come to an end -/

namespace Operation

variable {α : Type}

/-- What may be left of an operation after its next request. -/
inductive After : Operation α → Operation α → Prop
  | called {c : StoreCall} {next : c.Reply → Operation α} (r : c.Reply) :
    After (next r) (.call c next)
  | asked {q : Query} {next : q.Answer → Operation α} (a : q.Answer) : After (next a) (.ask q next)
  | stuck {q : Query} {next : q.Answer → Operation α} : After .crash (.ask q next)

/-- No operation makes requests forever. -/
theorem wellFounded_after : WellFounded (After (α := α)) := by
  refine ⟨fun x => ?_⟩
  induction x with
  | done a => exact ⟨_, nofun⟩
  | crash => exact ⟨_, nofun⟩
  | call c next ih =>
    refine ⟨_, fun y after => ?_⟩
    cases after with
    | called r => exact ih r
  | ask q next ih =>
    refine ⟨_, fun y after => ?_⟩
    cases after with
    | asked a => exact ih a
    | stuck => exact ⟨_, nofun⟩

end Operation

/-- An item of a list is replaced by one that comes before it. -/
theorem cutExpand_set {α : Type} {r : α → α → Prop} {l : List α} {n : Nat} {a b : α}
    (h : l[n]? = some a) (lt : r b a) :
    Relation.CutExpand r ((l.set n b : List α) : Multiset α) (l : Multiset α) := by
  induction l generalizing n with
  | nil => contradiction
  | cons c l ih =>
    cases n with
    | zero =>
      obtain rfl := Option.some.inj h
      exact Relation.cutExpand_single_add lt (l : Multiset α)
    | succ n => exact (Relation.cutExpand_add_left {c}).2 (ih h)

namespace Fleet

/-- An errand of the first fleet goes on, which leads to the second. -/
def Goes (f g : Fleet) : Prop := ∃ n, f.turn? (.go n) = some g

/-- What the errands have still to do. -/
def rests (f : Fleet) : List (Operation Answer) := f.errands.map (·.rest)

/-- An errand that goes on has less to do, and all others have what they had. -/
theorem Goes.rests {f g : Fleet} (h : f.Goes g) :
    ∃ n x y, f.rests[n]? = some y ∧ x.After y ∧ g.rests = f.rests.set n x := by
  obtain ⟨n, turn⟩ := h
  have rests : ∀ {h : History} {e : Errand}, (f.setErrand h n e).rests = f.rests.set n e.rest :=
    List.map_set
  have own : ∀ {e : Errand}, f.errands[n]? = some e → f.rests[n]? = some e.rest := fun he =>
    by rw [Fleet.rests, List.getElem?_map, he]; rfl
  cases change_of_turn? turn with
  | ask errand rest => exact ⟨n, _, _, own errand, rest ▸ .asked _, rests⟩
  | stuck errand rest => exact ⟨n, _, _, own errand, rest ▸ .stuck, rests⟩
  | call errand rest => exact ⟨n, _, _, own errand, rest ▸ .called _, rests⟩

/-- **Errands that nobody adds to come to an end**, in whatever order they go on. -/
theorem wellFounded_goes : WellFounded fun g f => Goes f g := by
  refine Subrelation.wf ?_
    (InvImage.wf (fun f : Fleet => (f.rests : Multiset (Operation Answer)))
      Operation.wellFounded_after.cutExpand)
  intro g f goes
  obtain ⟨n, x, y, hy, after, rests⟩ := goes.rests
  simp only [InvImage, rests]
  exact cutExpand_set hy after

/-! ## Contests -/

/-- What contenders do: each begins to look for a member lease once, and nobody does anything
else. Time passes. -/
def Contends (pool : String) (f : Fleet) : Move → Prop
  | .begin i job => job = .acquireMember (f.scene.podOf i) pool ∧ ∀ e ∈ f.errands, e.replica ≠ i
  | .go _ | .advance _ => True
  | .giveUp _ | .restart _ | .switch _ | .deploy _ => False

instance (pool : String) (f : Fleet) (m : Move) : Decidable (f.Contends pool m) :=
  match m with
  | .begin i job => inferInstanceAs (Decidable
      (job = .acquireMember (f.scene.podOf i) pool ∧ ∀ e ∈ f.errands, e.replica ≠ i))
  | .go _ | .advance _ => .isTrue trivial
  | .giveUp _ | .restart _ | .switch _ | .deploy _ => .isFalse id

end Fleet

/-- The lease that an operation has come away with. -/
def Operation.lease? : Operation Answer → Option Lease
  | .done (.lease l?) => l?
  | _ => none

/-- The leases that contenders have come away with. -/
def Fleet.won (f : Fleet) : List Lease := f.errands.filterMap (·.rest.lease?)

namespace Contest

/-- What comes of a contest. -/
structure Allotment (x : Contest) (f : Fleet) : Prop where
  /-- Everybody has an answer, or can go on to get one. -/
  goesOn : ∀ (n : Nat) (e : Errand), f.errands[n]? = some e →
    (∃ l?, e.rest = .done (.lease l?)) ∨ e.rest.isUnderWay = true ∧ (f.turn? (.go n)).isSome = true
  /-- Nobody is kept going forever. -/
  ends : Acc (fun g f : Fleet => f.Goes g) f
  /-- Whoever comes away with a lease holds it, and it was vacant. -/
  held : ∀ e ∈ f.errands, ∀ l, e.rest.lease? = some l →
    f.scene.store.leases.get? l.key = some l ∧ l.isHeldBy (f.scene.podOf e.replica) = true ∧
      ∃ b ∈ x.vacant, b.key = l.key
  /-- No two come away with the same lease. -/
  distinct : (f.won.map Lease.key).Nodup
  /-- In the end all leases are held, or everybody has one. -/
  all : (∀ e ∈ f.errands, e.rest.isUnderWay = false) →
    f.won.length = min f.errands.length x.vacant.length

/-- The answer of a contender. -/
def Answers (x : Contest) (n : Nat) (a : Answer) (h : History) : Prop :=
  ∃ l?, a = .lease l? ∧ x.Outcome n x.vacant (.ok l?) h

/-- A contest while it goes on. -/
structure IsUnderWay (x : Contest) (f : Fleet) : Prop where
  ground : x.Ground f.toHistory
  known : ∀ (n : Nat) (e : Errand), f.errands[n]? = some e →
    (x.start.scene.participant? e.replica).isSome = true
  /-- Everybody is on one errand. -/
  single : ∀ (m n : Nat) (d e : Errand), f.errands[m]? = some d → f.errands[n]? = some e →
    d.replica = e.replica → m = n
  writers : ∀ w ∈ f.log, ∃ e, f.errands[w.errand]? = some e ∧
    w.pod = x.start.scene.podOf e.replica
  meets : ∀ (n : Nat) (e : Errand), f.errands[n]? = some e →
    e.rest.Meets (x.terms e.replica n) (x.Answers n) f.toHistory

variable {x : Contest} {f g : Fleet} {m : Move} {n i : Nat} {e : Errand} {h h' : History}

theorem Outcome.later {r : Except PoolError (Option Lease)} {ls : List Lease}
    (H : x.Outcome n ls r h) (later : (x.terms i n).Later h h') : x.Outcome n ls r h' := by
  rcases r with e | _ | l
  · exact H
  · exact ⟨fun m hm => H.1 m ((hasWritten_of_later later).1 hm),
      fun b hb hv => later.1.1.isWritten (H.2 b hb hv)⟩
  · intro m
    rw [hasWritten_of_later later]
    exact H m

/-- The pods of participants. -/
theorem podOf_mem_pods (hi : (x.start.scene.participant? i).isSome = true) :
    x.start.scene.podOf i ∈ x.pods := by
  obtain ⟨c, hc⟩ := Option.isSome_iff_exists.1 hi
  rw [Scene.podOf, Scene.participantOf, hc]
  obtain ⟨r, hr, rfl⟩ := Option.map_eq_some_iff.1 hc
  exact List.mem_map_of_mem (List.mem_map_of_mem (List.mem_of_getElem? hr))

/-- No contender switches the store off. -/
theorem online_turn (online : f.scene.store.offline = false) (hm : f.Contends x.pool m)
    (h : f.turn? m = some g) : g.scene.store.offline = false := by
  cases Fleet.change_of_turn? h with
  | begin => exact online
  | ask _ _ answer =>
    obtain ⟨⟨a, scene⟩, hs, same⟩ := Option.map_eq_some_iff.1 answer
    cases same
    exact (congrArg MemoryStore.offline (Scene.frame_ask hs).store).trans online
  | stuck => exact online
  | call => exact MemoryStore.offline_answer.trans online
  | giveUp => exact hm.elim
  | restart => exact hm.elim
  | advance => exact online
  | switch => exact hm.elim
  | deploy => exact hm.elim

/-- Nobody writes in the name of an errand but that errand. -/
theorem hasWritten_of_turn? {l : Lease} (h : f.turn? m = some g) (other : m ≠ .go n)
    (hl : g.HasWritten n l) : f.HasWritten n l := by
  rcases Fleet.quiet_or_call h with quiet | ⟨k, e, c, next, go, he, hr, same⟩
  · rwa [History.HasWritten, quiet.same] at hl
  · rw [same] at hl
    refine (History.hasWritten_call.1 hl).resolve_left ?_
    rintro ⟨rfl, -⟩
    exact other go

/-- An errand after a move is one from before, or it is the first one of its replica. -/
theorem errand_before (hm : f.Contends x.pool m) (h : f.turn? m = some g)
    (he : g.errands[n]? = some e) :
    (∃ d, f.errands[n]? = some d ∧ d.replica = e.replica) ∨
      n = f.errands.length ∧ (∀ d ∈ f.errands, d.replica ≠ e.replica) ∧
        (f.scene.participant? e.replica).isSome = true := by
  cases Fleet.fate_of_turn? h he with
  | begun replica =>
    refine .inr ⟨rfl, hm.2, ?_⟩
    rw [Scene.participant?, replica]
    rfl
  | kept before | givenUp before | restarted before | asked before | stuck before | called before =>
    exact .inl ⟨_, before, rfl⟩

/-- No two vacant leases lie under the same key. -/
theorem IsOpen.nodup_vacant (O : x.IsOpen) : (x.vacant.map Lease.key).Nodup := by
  have own : ∀ a ∈ x.start.scene.store.leases.entries, a.2.key = a.1 := fun a ha =>
    (O.store a.1 a.2 (Table.get?_eq_some_iff.2 ha)).1
  refine List.pairwise_map.2 ((List.Pairwise.filter _ ?_).filter _)
  rw [MemoryStore.leasesOf, List.pairwise_map]
  refine (x.start.scene.store.leases.ascending.imp_of_mem ?_).filter _
  intro a b ha hb lt same
  rw [own a ha, own b hb] at same
  exact Key.lt_irrefl _ (same ▸ lt)

/-- At the beginning nobody is on an errand. -/
theorem IsRegular.isUnderWay (O : x.IsRegular) (T : x.IsTimely x.start.toHistory) :
    x.IsUnderWay x.start := by
  refine ⟨O.ground T, ?_, ?_, ?_, ?_⟩
  · intro n e he
    rw [O.errands] at he
    contradiction
  · intro m n d e hd
    rw [O.errands] at hd
    contradiction
  · intro w hw
    rw [O.log] at hw
    contradiction
  · intro n e he
    rw [O.errands] at he
    contradiction

namespace IsUnderWay

variable (U : x.IsUnderWay f)
include U

theorem podOf_eq (i : Nat) : f.scene.podOf i = x.start.scene.podOf i := U.ground.grown.podOf i

/-- What an errand counts on holds. -/
theorem holds (O : x.IsRegular) (he : f.errands[n]? = some e) :
    (x.terms e.replica n).holds f.toHistory := by
  refine ⟨U.ground, fun w hw own => ?_⟩
  obtain ⟨d, hd, pod⟩ := U.writers w hw
  have same := Fleet.eq_of_pod_eq O.distinct (U.known n e he) (U.known _ d hd) (pod.symm.trans own)
  exact U.single _ _ d e hd he same

/-- What an errand may call next. -/
theorem mayCall (O : x.IsRegular) {c : StoreCall} {next : c.Reply → Operation Answer}
    (he : f.errands[n]? = some e) (hr : e.rest = .call c next) :
    x.MayCall (f.scene.podOf e.replica) f.toHistory c := by
  have H := U.meets n e he
  rw [hr] at H
  rw [U.podOf_eq]
  exact (H _ ⟨(x.terms e.replica n).refl _, U.holds O he⟩).1

/-- What holds at all times does so after a move. -/
theorem ground_turn (O : x.IsRegular) (hm : f.Contends x.pool m) (h : f.turn? m = some g)
    (T : x.IsTimely g.toHistory) : x.Ground g.toHistory := by
  rcases Fleet.quiet_or_call h with quiet | ⟨n, e, c, next, -, he, hr, same⟩
  · exact U.ground.quiet quiet (online_turn U.ground.online hm h) T
  · rw [same] at T ⊢
    refine U.ground.call O ?_ (U.mayCall O he hr) T
    rw [U.podOf_eq]
    exact podOf_mem_pods (U.known n e he)

/-- An errand that begins meets the terms. -/
theorem meets_begun {r : Replica} (O : x.IsRegular) (hr : f.scene.replicas[i]? = some r) :
    (Job.operation r.participant (.acquireMember (f.scene.podOf i) x.pool)).Meets
      (x.terms i f.errands.length) (x.Answers f.errands.length) f.toHistory := by
  have exists_ : f.scene.participant? i = some r.participant := by rw [Scene.participant?, hr]; rfl
  have known : x.start.scene.participant? i = some r.participant :=
    (U.ground.grown.participant i).symm.trans exists_
  have shared : r.participant.pool.ns = x.ns := by
    obtain ⟨s, hs, same⟩ := Option.map_eq_some_iff.1 known
    rw [← same]
    exact O.shared _ (List.mem_map_of_mem (List.mem_of_getElem? hs))
  have idle : ∀ l, ¬ f.HasWritten f.errands.length l := by
    rintro l ⟨w, hw, last, -⟩
    obtain ⟨d, hd, -⟩ := U.writers w hw
    have short := (List.getElem?_eq_some_iff.1 hd).1
    omega
  rw [U.podOf_eq]
  refine Operation.meets_bind ((meets_acquireMember O shared
    (podOf_mem_pods (by rw [known]; rfl)) idle).weaken ?_)
  intro result k H h' later
  cases result with
  | error err => exact H.elim
  | ok l? => exact ⟨l?, rfl, H.later later⟩

/-- **A move of a contest that is timely.** -/
theorem turn (O : x.IsRegular) (hm : f.Contends x.pool m) (h : f.turn? m = some g)
    (T : x.IsTimely g.toHistory) : x.IsUnderWay g := by
  have G := U.ground_turn O hm h T
  have grown := Fleet.grows_of_turn? h
  refine ⟨G, ?_, ?_, ?_, ?_⟩
  · intro n e he
    rcases errand_before hm h he with ⟨d, hd, same⟩ | ⟨-, -, known⟩
    · exact same ▸ U.known n d hd
    · rwa [U.ground.grown.participant] at known
  · intro j k d e hd he same
    rcases errand_before hm h hd with ⟨d', hd', ownD⟩ | ⟨rfl, newD, -⟩ <;>
      rcases errand_before hm h he with ⟨e', he', ownE⟩ | ⟨rfl, newE, -⟩
    · exact U.single j k d' e' hd' he' (ownD.trans (same.trans ownE.symm))
    · exact absurd (ownD.trans same) (newE d' (List.mem_of_getElem? hd'))
    · exact absurd (ownE.trans same.symm) (newD e' (List.mem_of_getElem? he'))
    · rfl
  · intro w hw
    have after : ∀ {d : Errand}, f.errands[w.errand]? = some d →
        w.pod = x.start.scene.podOf d.replica →
        ∃ e, g.errands[w.errand]? = some e ∧ w.pod = x.start.scene.podOf e.replica := by
      intro d hd pod
      obtain ⟨e, he, same⟩ := Fleet.exists_errand_of_turn? h hd
      exact ⟨e, he, same ▸ pod⟩
    rcases Fleet.quiet_or_call h with quiet | ⟨n, e, c, next, -, he, -, same⟩
    · rw [quiet.same] at hw
      obtain ⟨d, hd, pod⟩ := U.writers w hw
      exact after hd pod
    · rw [same, History.log_call] at hw
      rcases List.mem_cons.1 hw with rfl | hw
      · exact after he (U.podOf_eq _)
      · obtain ⟨d, hd, pod⟩ := U.writers w hw
        exact after hd pod
  · intro n e he
    cases Fleet.fate_of_turn? h he with
    | kept before notGo =>
      exact (U.meets n e before).later ⟨grown, fun l hl => hasWritten_of_turn? h notGo hl⟩
    | givenUp => exact hm.elim
    | restarted => exact hm.elim
    | @asked _ d q next a before rest answer =>
      have H := U.meets n d before
      rw [rest] at H
      exact (H _ ⟨(x.terms d.replica n).refl _, U.holds O before⟩).2 a g.toHistory answer
    | stuck _ _ answer =>
      exact absurd answer (History.ask_ne_none (U.ground.grown.ticking.trans O.still))
    | @called _ d c next before rest same =>
      have H := U.meets n d before
      rw [rest] at H
      rw [same]
      exact (H _ ⟨(x.terms d.replica n).refl _, U.holds O before⟩).2
    | begun replica same =>
      obtain ⟨rfl, -⟩ := hm
      rw [same]
      exact U.meets_begun O replica

/-- The answer of an errand that has ended. -/
theorem outcome (O : x.IsRegular) (he : f.errands[n]? = some e) {a : Answer}
    (hr : e.rest = .done a) : x.Answers n a f.toHistory := by
  have H := U.meets n e he
  rw [hr] at H
  exact H _ ⟨(x.terms e.replica n).refl _, U.holds O he⟩

/-- Everybody has an answer, or can go on. -/
theorem goesOn (O : x.IsRegular) (he : f.errands[n]? = some e) :
    (∃ l?, e.rest = .done (.lease l?)) ∨
      e.rest.isUnderWay = true ∧ (f.turn? (.go n)).isSome = true := by
  cases hr : e.rest with
  | done a =>
    obtain ⟨l?, rfl, -⟩ := U.outcome O he hr
    exact .inl ⟨l?, rfl⟩
  | crash =>
    have H := U.meets n e he
    rw [hr] at H
    exact (H _ ⟨(x.terms e.replica n).refl _, U.holds O he⟩).elim
  | ask q next =>
    refine .inr ⟨rfl, ?_⟩
    simp only [Fleet.turn?, he, Option.bind_some, Fleet.go?, hr]
    cases f.ask e.replica q <;> rfl
  | call c next =>
    refine .inr ⟨rfl, ?_⟩
    simp only [Fleet.turn?, he, Option.bind_some, Fleet.go?, hr]
    rfl

/-- Whoever has come away with a lease has written that and nothing else. -/
theorem hasWritten_iff (O : x.IsRegular) {l l' : Lease} (he : f.errands[n]? = some e)
    (hl : e.rest.lease? = some l) : f.HasWritten n l' ↔ l' = l := by
  cases hr : e.rest with
  | done a =>
    obtain ⟨l?, rfl, H⟩ := U.outcome O he hr
    rw [hr] at hl
    obtain rfl : l? = some l := hl
    exact H l'
  | _ => rw [hr] at hl; contradiction

/-- Whoever has come away with a lease holds it. -/
theorem held (O : x.IsRegular) {l : Lease} (he : f.errands[n]? = some e)
    (hl : e.rest.lease? = some l) :
    f.scene.store.leases.get? l.key = some l ∧ l.isHeldBy (f.scene.podOf e.replica) = true ∧
      ∃ b ∈ x.vacant, b.key = l.key := by
  have written := (U.hasWritten_iff O he hl).2 rfl
  obtain ⟨w, hw, rfl, hs⟩ := id written
  have claim := U.ground.claims w hw l hs
  obtain ⟨d, hd, pod⟩ := U.writers w hw
  obtain rfl := Option.some.inj (he.symm.trans hd)
  refine ⟨U.ground.kept _ l written, ?_, claim.vacant⟩
  rw [U.podOf_eq, ← pod]
  exact claim.held

/-- **No two come away with the same lease**: it has one holder. -/
theorem distinct (O : x.IsRegular) : (f.won.map Lease.key).Nodup := by
  refine List.pairwise_map.2 (List.pairwise_filterMap.2 (List.pairwise_iff_getElem.2 ?_))
  intro j k hj hk lt l hl m hm key
  have hj := List.getElem?_eq_getElem hj
  have hk := List.getElem?_eq_getElem hk
  obtain ⟨storedL, heldL, -⟩ := U.held O hj hl
  obtain ⟨storedM, heldM, -⟩ := U.held O hk hm
  obtain rfl : l = m := Option.some.inj (storedL.symm.trans (key ▸ storedM))
  have pods := Lease.eq_of_isHeldBy heldL heldM
  rw [U.podOf_eq, U.podOf_eq] at pods
  have same := Fleet.eq_of_pod_eq O.distinct (U.known _ _ hk) (U.known _ _ hj) pods
  have := U.single j k _ _ hj hk same
  omega

/-- Whatever has been written has been won, when everybody has an answer. -/
theorem mem_won (O : x.IsRegular) (ended : ∀ e ∈ f.errands, e.rest.isUnderWay = false) {l : Lease}
    (hl : f.HasWritten n l) : l ∈ f.won := by
  obtain ⟨w, hw, rfl, -⟩ := id hl
  obtain ⟨e, he, -⟩ := U.writers w hw
  rcases U.goesOn O he with ⟨l?, hr⟩ | ⟨underWay, -⟩
  · obtain ⟨_, same, H⟩ := U.outcome O he hr
    obtain rfl := Answer.lease.inj same
    cases l? with
    | none => exact absurd hl (H.1 l)
    | some d =>
      obtain rfl := (H l).1 hl
      exact List.mem_filterMap.2 ⟨e, List.mem_of_getElem? he, by rw [hr]; rfl⟩
  · rw [ended e (List.mem_of_getElem? he)] at underWay
    contradiction

/-- **In the end all leases are held, or everybody has one.** -/
theorem all (O : x.IsRegular) (ended : ∀ e ∈ f.errands, e.rest.isUnderWay = false) :
    f.won.length = min f.errands.length x.vacant.length := by
  have few : f.won.length ≤ f.errands.length := List.length_filterMap_le _ _
  -- What has been won was vacant.
  have vacant : f.won.map Lease.key ⊆ x.vacant.map Lease.key := by
    intro k hk
    obtain ⟨l, hl, rfl⟩ := List.mem_map.1 hk
    obtain ⟨e, he, hr⟩ := List.mem_filterMap.1 hl
    obtain ⟨n, hn⟩ := List.mem_iff_getElem?.1 he
    obtain ⟨-, -, b, hb, key⟩ := U.held O hn hr
    exact key ▸ List.mem_map_of_mem hb
  have fits := ((U.distinct O).subperm vacant).length_le
  rw [List.length_map, List.length_map] at fits
  by_cases every : ∀ e ∈ f.errands, e.rest.lease?.isSome = true
  · have : f.won.length = f.errands.length := List.filterMap_length_eq_length.2 every
    omega
  · -- Somebody has come away with nothing, so everything has been claimed.
    obtain ⟨e, he, none⟩ : ∃ e ∈ f.errands, e.rest.lease? = none := by simpa using every
    obtain ⟨n, hn⟩ := List.mem_iff_getElem?.1 he
    have claimed : x.vacant.map Lease.key ⊆ f.won.map Lease.key := by
      intro k hk
      obtain ⟨b, hb, rfl⟩ := List.mem_map.1 hk
      rcases U.goesOn O hn with ⟨l?, hr⟩ | ⟨underWay, -⟩
      · obtain ⟨_, same, H⟩ := U.outcome O hn hr
        obtain rfl := Answer.lease.inj same
        rw [hr] at none
        obtain rfl : l? = Option.none := none
        obtain ⟨_, l, written, key⟩ := H.2 b hb hb
        exact key ▸ List.mem_map_of_mem (U.mem_won O ended written)
      · rw [ended e he] at underWay
        contradiction
    have all := (O.nodup_vacant.subperm claimed).length_le
    rw [List.length_map, List.length_map] at all
    omega

end IsUnderWay

/-- A contest that is timely up to now is under way. -/
theorem isUnderWay_of_reaches (O : x.IsRegular)
    (run : Fleet.Reaches (Fleet.Contends x.pool) x.start f) (T : x.IsTimely f.toHistory) :
    x.IsUnderWay f := by
  induction run with
  | refl => exact O.isUnderWay T
  | tail _ turn ih =>
    obtain ⟨m, hm, turn⟩ := turn
    exact (ih (T.mono (Fleet.grows_of_turn? turn))).turn O hm turn T

/-- **Contenders share nothing and waste nothing**, whatever the order of their calls: if no claim
expires, all claims end within the calendar, and every change of hands can be counted, then in the
end as many of them hold a lease as there are leases, or all of them do. -/
theorem allotment_of_reaches (O : x.IsRegular)
    (run : Fleet.Reaches (Fleet.Contends x.pool) x.start f) (T : x.IsTimely f.toHistory) :
    x.Allotment f where
  goesOn n e he := (isUnderWay_of_reaches O run T).goesOn O he
  ends := Fleet.wellFounded_goes.apply f
  held e he l hl := by
    obtain ⟨n, hn⟩ := List.mem_iff_getElem?.1 he
    exact (isUnderWay_of_reaches O run T).held O hn hl
  distinct := (isUnderWay_of_reaches O run T).distinct O
  all := (isUnderWay_of_reaches O run T).all O

/-! ## Two contenders -/

instance (x : Contest) (h : History) : Decidable (x.IsTimely h) :=
  decidable_of_iff
    ((∀ l ∈ x.members, l.holder? ≠ none →
      l.expiry ≠ .outOfRange ∧ (¬ l.ExpiredBy x.start.now → ¬ l.ExpiredBy h.now)) ∧
    ∀ l ∈ h.log.filterMap Exchange.stored?, ¬ l.ExpiredBy h.now ∧ l.expiry ≠ .outOfRange)
    ⟨fun T => ⟨T.1, T.2⟩, fun T => ⟨T.standing, T.made⟩⟩

/-- Two contenders for a member lease that somebody has put into the store. -/
def ofLease (l : Lease) (time : Instant) : Contest where
  start :=
    let store := MemoryStore.put {} l
    { scene := { (Fleet.small time).scene with store }, origin := store.leases.values }
  ns := "ns"
  pool := "pool"

/-- A member lease of the small pool. -/
def member (claim : Claim) : Lease :=
  { Pool.small.newLease .member (memberLeaseName "pool" 0) [] with claim }

/-- A member lease that nobody has claimed. -/
def unclaimed (duration : Option Int32) : Lease := member { duration }

/-- A member lease that has changed hands so often that the number has no successor. What its
holder has claimed has no end, so it is available. -/
def wornOut : Lease :=
  member { holder := some "x", duration := some 30, transitions := some Int32.maxValue }

theorem isOpen_ofLease {claim : Claim} (t : Instant)
    (away : ∀ pod ∈ ["a", "b"], (member claim).isHeldBy pod = false) :
    (ofLease (member claim) t).IsOpen where
  errands := rfl
  log := rfl
  origin := rfl
  store := (MemoryStore.isSound_of_empty rfl).put _
  still := rfl
  online := rfl
  shared c hc := by
    change c ∈ [Participant.small "a", Participant.small "b"] at hc
    rcases List.mem_pair.1 hc with rfl | rfl <;> rfl
  distinct := by
    have pods : (ofLease (member claim) t).pods = ["a", "b"] := rfl
    rw [pods]
    decide
  named := by
    have pods : (ofLease (member claim) t).pods = ["a", "b"] := rfl
    rw [pods]
    decide +kernel
  away l hl := by
    obtain ⟨e, he, rfl⟩ := List.mem_map.1 (List.mem_filter.1 hl).1
    obtain rfl := List.mem_singleton.1 (List.mem_filter.1 he).1
    exact away

/-- A claim on an unclaimed lease that is good for half a minute. -/
theorem isRegular_ofLease (t : Instant) : (ofLease (unclaimed (some 30)) t).IsRegular where
  toIsOpen := isOpen_ofLease t fun _ _ => rfl
  timed l hl := by
    obtain ⟨e, he, rfl⟩ := List.mem_map.1 (List.mem_filter.1 (List.mem_filter.1 hl).1).1
    obtain rfl := List.mem_singleton.1 (List.mem_filter.1 he).1
    rfl
  counted l hl pod _ := by
    obtain ⟨e, he, rfl⟩ := List.mem_map.1 (List.mem_filter.1 (List.mem_filter.1 hl).1).1
    obtain rfl := List.mem_singleton.1 (List.mem_filter.1 he).1
    rfl

/-- Both look for a lease. -/
def looking : List Move :=
  [.begin 0 (.acquireMember "a" "pool"), .begin 1 (.acquireMember "b" "pool")]

/-- Both see the only lease unclaimed. One of them claims it, and the other one loses the race. -/
def racing : List Move := looking ++ [.go 0, .go 1, .go 0, .go 1, .go 0, .go 1, .go 0, .go 1]

/-- One of them comes away with the lease. -/
theorem allotment_of_racing :
    ∃ f, (ofLease (unclaimed (some 30)) ⟨0⟩).start.run? (fun f m => f.Contends "pool" m) racing =
        some f ∧ (∀ e ∈ f.errands, e.rest.isUnderWay = false) ∧ f.errands.length = 2 ∧
      (ofLease (unclaimed (some 30)) ⟨0⟩).vacant.length = 1 ∧
      (ofLease (unclaimed (some 30)) ⟨0⟩).Allotment f := by
  have leads : (ofLease (unclaimed (some 30)) ⟨0⟩).start.leadsTo (fun f m => f.Contends "pool" m)
      racing (fun f => (∀ e ∈ f.errands, e.rest.isUnderWay = false) ∧ f.errands.length = 2 ∧
        (ofLease (unclaimed (some 30)) ⟨0⟩).IsTimely f.toHistory) = true := by decide +kernel
  obtain ⟨f, run, ended⟩ := Fleet.exists_of_leadsTo leads
  obtain ⟨ended, both, timely⟩ := of_decide_eq_true ended
  have reached := Fleet.reaches_of_run? (fun _ _ h => of_decide_eq_true h) run
  exact ⟨f, run, ended, both, by decide +kernel,
    allotment_of_reaches (isRegular_ofLease ⟨0⟩) reached timely⟩

/-- One after the other they look for a lease. -/
def queueing : List Move := looking ++ Move.goes 0 4 ++ Move.goes 1 4

/-- **What else is needed**: both come away with a lease on which claims never come to an end; a
contender that finds a claim which ends beyond the calendar does not come away at all; and no more
does one that would have to count a change of hands too many. -/
theorem allotted_twice :
    ((ofLease (unclaimed none) ⟨0⟩).IsOpen ∧
      ∃ f, Fleet.Reaches (Fleet.Contends "pool") (ofLease (unclaimed none) ⟨0⟩).start f ∧
        (ofLease (unclaimed none) ⟨0⟩).IsTimely f.toHistory ∧
        f.won.map Lease.key = [Pool.smallKey, Pool.smallKey] ∧
        (ofLease (unclaimed none) ⟨0⟩).vacant.length = 1) ∧
    ((ofLease (unclaimed (some 30)) Fleet.lateInstant).IsRegular ∧
      ∃ f, Fleet.Reaches (Fleet.Contends "pool")
          (ofLease (unclaimed (some 30)) Fleet.lateInstant).start f ∧
        (∀ l ∈ f.log.filterMap Exchange.stored?, ¬ l.ExpiredBy f.now) ∧
        ∃ e ∈ f.errands, e.rest.isStuck = true) ∧
    (ofLease wornOut ⟨0⟩).IsOpen ∧
      (∀ l ∈ (ofLease wornOut ⟨0⟩).vacant, l.claim.duration.isSome = true) ∧
      ∃ f, Fleet.Reaches (Fleet.Contends "pool") (ofLease wornOut ⟨0⟩).start f ∧
        (ofLease wornOut ⟨0⟩).IsTimely f.toHistory ∧
        (∀ e ∈ f.errands, e.rest.isStuck = true) ∧ f.errands.length = 2 ∧
        (ofLease wornOut ⟨0⟩).vacant.length = 1 := by
  refine ⟨⟨isOpen_ofLease _ fun _ _ => rfl, ?_⟩, ⟨isRegular_ofLease _, ?_⟩,
    isOpen_ofLease _ (by decide +kernel), by decide +kernel, ?_⟩
  · have leads : (ofLease (unclaimed none) ⟨0⟩).start.leadsTo (fun f m => f.Contends "pool" m)
        queueing (fun f => (ofLease (unclaimed none) ⟨0⟩).IsTimely f.toHistory ∧
          f.won.map Lease.key = [Pool.smallKey, Pool.smallKey] ∧
          (ofLease (unclaimed none) ⟨0⟩).vacant.length = 1) = true := by decide +kernel
    obtain ⟨f, run, twice⟩ := Fleet.exists_of_leadsTo leads
    exact ⟨f, Fleet.reaches_of_run? (fun _ _ h => of_decide_eq_true h) run, of_decide_eq_true twice⟩
  · have leads : (ofLease (unclaimed (some 30)) Fleet.lateInstant).start.leadsTo
        (fun f m => f.Contends "pool" m) (looking ++ Move.goes 0 4 ++ Move.goes 1 2)
        (fun f => (∀ l ∈ f.log.filterMap Exchange.stored?, ¬ l.ExpiredBy f.now) ∧
          ∃ e ∈ f.errands, e.rest.isStuck = true) = true := by decide +kernel
    obtain ⟨f, run, stuck⟩ := Fleet.exists_of_leadsTo leads
    exact ⟨f, Fleet.reaches_of_run? (fun _ _ h => of_decide_eq_true h) run, of_decide_eq_true stuck⟩
  · have leads : (ofLease wornOut ⟨0⟩).start.leadsTo (fun f m => f.Contends "pool" m)
        (looking ++ Move.goes 0 3 ++ Move.goes 1 3)
        (fun f => (ofLease wornOut ⟨0⟩).IsTimely f.toHistory ∧
          (∀ e ∈ f.errands, e.rest.isStuck = true) ∧ f.errands.length = 2 ∧
          (ofLease wornOut ⟨0⟩).vacant.length = 1) = true := by decide +kernel
    obtain ⟨f, run, stuck⟩ := Fleet.exists_of_leadsTo leads
    exact ⟨f, Fleet.reaches_of_run? (fun _ _ h => of_decide_eq_true h) run, of_decide_eq_true stuck⟩

end Contest

end LeasePool
