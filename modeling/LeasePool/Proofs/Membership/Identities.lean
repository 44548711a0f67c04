import LeasePool.Membership.Identity
import LeasePool.Proofs.Pool.Races
import LeasePool.Proofs.Text.Blanks

/-!
# Identities can hold leases

A process takes its names from the first source that is not blank, trimmed, so it cannot come to
have a blank name. A blank name would hold nothing: whoever claims a lease under it would leave the
lease to everybody else. A lease that is claimed under the name of a process is in the hands of that
process and of no other one, until the claim expires.
-/

namespace LeasePool

/-! ## Proper texts -/

namespace Text

/-- The text is not blank, and there is nothing to trim. -/
structure IsProper (s : String) : Prop where
  nonBlank : isBlankText s = false
  trimmed : trim s = s

/-- What is left of a text that is not blank is proper. -/
theorem isProper_trim {s : String} (text : isBlankText s = false) : IsProper (trim s) :=
  ⟨by rw [isBlankText_trim, text], trim_trim s⟩

/-- A text without a blank at its two ends is proper, unless it is empty. -/
theorem isProper_of_hasBareEnds {s : String} (some : s.toList ≠ []) (bare : HasBareEnds s.toList) :
    IsProper s := by
  have same := trimChars_append blanks_nil blanks_nil bare
  rw [List.nil_append, List.append_nil] at same
  constructor
  · rw [← Bool.not_eq_true, ← trim_eq_empty_iff, trim, same, String.ofList_toList]
    rintro rfl
    exact some rfl
  · rw [trim, same, String.ofList_toList]

end Text

namespace IdentitySources

open Text

variable {s : IdentitySources} {sources : List (Option String)} {source : Option String}
  {v w : String}

/-! ## The first source that is not blank -/

/-- The source is missing or blank. -/
def IsSilent (source : Option String) : Prop := ∀ text, source = some text → isBlankText text = true

/-- The first of the sources that is neither missing nor blank has the value, once it is trimmed. -/
inductive Picks : List (Option String) → String → Prop
  | here {text : String} {sources : List (Option String)} (told : isBlankText text = false) :
    Picks (some text :: sources) (trim text)
  | later {source : Option String} {sources : List (Option String)} {v : String}
    (silent : IsSilent source) (picks : Picks sources v) : Picks (source :: sources) v

theorem bind_nonBlank?_eq_none : source.bind nonBlank? = none ↔ IsSilent source := by
  cases source with
  | none => simp [IsSilent]
  | some text => simp [IsSilent, nonBlank?]

theorem bind_nonBlank?_eq_some :
    source.bind nonBlank? = some v ↔
      ∃ text, source = some text ∧ isBlankText text = false ∧ trim text = v := by
  cases source with
  | none => simp
  | some text => simp [nonBlank?]

/-- **One source after the other** is tried. -/
theorem picks_cons : Picks (source :: sources) v ↔
    source.bind nonBlank? = some v ∨ source.bind nonBlank? = none ∧ Picks sources v := by
  rw [bind_nonBlank?_eq_none, bind_nonBlank?_eq_some]
  constructor
  · rintro (told | ⟨silent, picks⟩)
    · exact .inl ⟨_, rfl, told, rfl⟩
    · exact .inr ⟨silent, picks⟩
  · rintro (⟨text, rfl, told, rfl⟩ | ⟨silent, picks⟩)
    · exact .here told
    · exact .later silent picks

theorem not_picks_nil : ¬ Picks [] v := nofun

/-- What is picked is proper. -/
theorem Picks.isProper (H : Picks sources v) : IsProper v := by
  induction H with
  | here told => exact isProper_trim told
  | later silent picks ih => exact ih

/-- Nothing is picked exactly if all sources are silent. -/
theorem not_picks_iff : (∀ v, ¬ Picks sources v) ↔ ∀ source ∈ sources, IsSilent source := by
  induction sources with
  | nil => simp [not_picks_nil]
  | cons source sources ih =>
    rw [List.forall_mem_cons, ← ih]
    constructor
    · intro none
      have silent : IsSilent source := by
        rw [← bind_nonBlank?_eq_none, Option.eq_none_iff_forall_ne_some]
        exact fun v found => none v (picks_cons.2 (.inl found))
      exact ⟨silent, fun v picks => none v (.later silent picks)⟩
    · rintro ⟨silent, none⟩ v picks
      cases picks with
      | here told => rw [silent _ rfl] at told; contradiction
      | later _ picks => exact none v picks

/-! ## Namespaces and names of pods -/

/-- Where the namespace of a process is looked for, in this order. -/
def namespaces (s : IdentitySources) : List (Option String) :=
  [s.env "POD_NAMESPACE", s.namespaceFile, s.fallback]

/-- Where the name of the pod of a process is looked for, in this order. -/
def podNames (s : IdentitySources) : List (Option String) := [s.env "POD_NAME", s.env "HOSTNAME"]

theorem namespace?_eq_some : s.namespace? = some v ↔ Picks s.namespaces v := by
  simp only [namespace?, lookUp?, namespaces, picks_cons, not_picks_nil, Option.or_eq_some_iff,
    and_false, or_false]

theorem podName?_eq_some : s.podName? = some v ↔ Picks s.podNames v := by
  simp only [podName?, lookUp?, podNames, picks_cons, not_picks_nil, Option.or_eq_some_iff,
    and_false, or_false]

theorem namespace?_eq_none : s.namespace? = none ↔ ∀ source ∈ s.namespaces, IsSilent source := by
  rw [← not_picks_iff, Option.eq_none_iff_forall_ne_some]
  exact forall_congr' fun v => not_congr namespace?_eq_some

theorem podName?_eq_none : s.podName? = none ↔ ∀ source ∈ s.podNames, IsSilent source := by
  rw [← not_picks_iff, Option.eq_none_iff_forall_ne_some]
  exact forall_congr' fun v => not_congr podName?_eq_some

/-- The name that stands in for that of a pod is proper. -/
theorem isProper_standIn (n : Nat) : IsProper ("dev-" ++ String.ofList (decimal n)) := by
  have chars : ("dev-" ++ String.ofList (decimal n)).toList =
      ['d', 'e', 'v', '-'] ++ decimal n := by
    rw [String.toList_append, String.toList_ofList]
    simp
  have last : (['d', 'e', 'v', '-'] ++ decimal n).getLast? = (decimal n).getLast? :=
    List.getLast?_append_of_ne_nil _ Nat.toDigits_ne_nil
  refine isProper_of_hasBareEnds ?_ ⟨?_, ?_⟩
  · rw [chars]
    exact List.cons_ne_nil _ _
  · rw [chars]
    rintro _ ⟨⟩
    decide
  · intro c hc
    rw [chars, last] at hc
    exact isBlank_of_isDigit (Nat.isDigit_of_mem_toDigits (by decide) (by decide)
      (List.mem_of_getLast? hc))

end IdentitySources

/-! ## Holders -/

/-- The lease is in the hands of its holder. -/
structure Lease.IsReservedFor (l : Lease) (holder : String) : Prop where
  /-- That one holds it, and nobody else. -/
  held : ∀ identity, l.isHeldBy identity = true ↔ identity = holder
  /-- If the claim has a duration, then the lease is not available to anybody else before the claim
  has expired... -/
  kept : ∀ other t, other ≠ holder → l.claim.duration.isSome = true → ¬ l.ExpiredBy t →
    l.availableTo? other t ≠ some true
  /-- ... and that is what they are told, unless the claim expires beyond the calendar. -/
  refused : ∀ other t, other ≠ holder → l.claim.duration.isSome = true → ¬ l.ExpiredBy t →
    l.expiry ≠ .outOfRange → l.availableTo? other t = some false

/-- **A lease that is claimed under a proper name** is in the hands of whoever has the name. -/
theorem isReservedFor_of_claim {l stored : Lease} {holder : String} {now : Stamp}
    (proper : Text.isBlankText holder = false)
    (claim : stored.claim = (l.edit (.claim holder now)).claim) : stored.IsReservedFor holder := by
  have held : ∀ identity, stored.isHeldBy identity = true ↔ identity = holder := by
    intro identity
    rw [Lease.isHeldBy_iff, claim, Lease.claim_holder_claim, Option.some.injEq]
    constructor
    · rintro ⟨rfl, -⟩
      rfl
    · rintro rfl
      exact ⟨rfl, proper⟩
  have timed : stored.claim.duration.isSome = true → stored.IsTimed := by
    intro limited
    refine ⟨?_, limited⟩
    rw [claim, Lease.claim_renewed_claim]
    rfl
  refine ⟨held, fun other t different limited good free => ?_,
    fun other t different limited good ends => ?_⟩
  · exact good (Lease.expiredBy_of_available (timed limited) ((held holder).2 rfl)
      different.symm free)
  · exact Lease.IsGood.keeps_off ⟨good, ends⟩ (timed limited) ((held holder).2 rfl) different.symm

/-- What has been stored has the claim that was written, and it is there. -/
def Round.IsFaithful (r : Round) : Prop := ∀ stored, r.stored? = some stored →
  (∃ written, r.call.written? = some written ∧ stored.claim = written.claim) ∧
    r.service.decided.store.leases.get? stored.key = some stored

/-- **A store in memory is faithful**, whichever calls fail and whatever others do. -/
theorem isFaithful_ofStore {failing : Nat → StoreCall → Option PoolError}
    {before after : Nat → Scene → Scene} {n : Nat} {s : Scene} {c : StoreCall} {x : Service c}
    (replied : Counterpart.ofStore failing before after n s c = some x) :
    Round.IsFaithful ⟨c, x⟩ := by
  intro stored hs
  simp only [Counterpart.ofStore] at replied
  split at replied
  · obtain rfl := Option.some.inj replied
    cases c <;> contradiction
  · obtain rfl := Option.some.inj replied
    rcases MemoryStore.stored?_answer hs with
      ⟨l, rfl, -, rfl, written⟩ | ⟨l, b, rfl, -, -, rfl, written⟩
    · refine ⟨⟨l, rfl, rfl⟩, ?_⟩
      simp only [written, MemoryStore.get?_write]
      exact if_pos rfl
    · refine ⟨⟨l, rfl, rfl⟩, ?_⟩
      simp only [written, MemoryStore.get?_write]
      exact if_pos rfl

/-- What has been stored is there, and it is reserved for a holder. -/
def Round.Reserves (r : Round) (holder : String) : Prop := ∀ stored, r.stored? = some stored →
  r.service.decided.store.leases.get? stored.key = some stored ∧ stored.IsReservedFor holder

/-- Leases can be claimed under the name. -/
structure CanHold (name : String) : Prop where
  proper : Text.IsProper name
  /-- A lease that a renewal under the name has stored is reserved for the name, whichever calls
  fail and whatever others do. -/
  reserved : ∀ (failing : Nat → StoreCall → Option PoolError) (before after : Nat → Scene → Scene)
    (i n : Nat) (s : Scene) (l : Lease),
    ∀ r ∈ (s.converse i (.ofStore failing before after) n (Pool.renew l name).run).rounds,
      r.Reserves name

/-- **Leases can be claimed under every proper name.** -/
theorem canHold_of_isProper {name : String} (proper : Text.IsProper name) : CanHold name where
  proper := proper
  reserved failing before after i n s l := by
    have guaranteed : (Pool.renew l name).run.Guarantees Round.IsFaithful
        fun rounds _ => ∀ r ∈ rounds, r.Reserves name := by
      have nothing : ∀ r ∈ ([] : List Round), r.Reserves name := List.forall_mem_nil _
      refine Attempt.guarantees_ask nothing fun now =>
        Attempt.guarantees_orCrash nothing fun claimed counted => ?_
      obtain ⟨-, rfl⟩ := Lease.claimed?_eq_some_iff.1 counted
      refine Attempt.guarantees_reply nothing fun x faithful => ?_
      have reserves : ∀ r ∈ [Round.mk _ x], r.Reserves name := by
        refine List.forall_mem_singleton.2 fun stored hs => ?_
        obtain ⟨⟨written, ⟨⟩, claim⟩, there⟩ := faithful stored hs
        exact ⟨there, isReservedFor_of_claim proper.nonBlank claim⟩
      rcases x with ⟨e | stored, decided, after⟩
      · simp only
        split
        · exact reserves
        · exact reserves
      · exact reserves
    exact guaranteed.ends (fun _ _ _ _ => isFaithful_ofStore) i n s

/-! ## What can be relied on -/

namespace IdentitySources

open Text

variable {s : IdentitySources} {sources : List (Option String)} {id : Identity} {n : Nat}

theorem cluster_eq_ok_iff :
    s.cluster = .ok id ↔ s.namespace? = some id.ns ∧ s.podName? = some id.pod := by
  obtain ⟨ns, pod⟩ := id
  rw [cluster]
  cases s.namespace? <;> cases s.podName? <;> simp

theorem cluster_eq_noNamespace_iff :
    s.cluster = .error (.configuration .noNamespace) ↔ s.namespace? = none := by
  rw [cluster]
  cases s.namespace? <;> cases s.podName? <;> simp

theorem cluster_eq_noPodName_iff :
    s.cluster = .error (.configuration .noPodName) ↔
      s.namespace? ≠ none ∧ s.podName? = none := by
  rw [cluster]
  cases s.namespace? <;> cases s.podName? <;> simp

theorem cluster_eq_error_iff :
    (∃ e, s.cluster = .error e) ↔ s.namespace? = none ∨ s.podName? = none := by
  rw [cluster]
  cases s.namespace? <;> cases s.podName? <;> simp

/-- The sources that a process has outside a cluster. -/
def alone (s : IdentitySources) : IdentitySources := { s with fallback := none }

/-- Who the process with a number is outside a cluster. -/
def developer (s : IdentitySources) (n : Nat) : Identity :=
  s.development (String.ofList (decimal n))

/-- What can be relied on when a process, which has a number, finds out who it is. -/
structure IsTrustworthy (s : IdentitySources) (n : Nat) : Prop where
  /-- In a cluster, the first source that is not blank is taken... -/
  cluster : ∀ id, s.cluster = .ok id ↔ Picks s.namespaces id.ns ∧ Picks s.podNames id.pod
  /-- ... and it is an error if there is none. -/
  fails : (∃ e, s.cluster = .error e) ↔
    (∀ source ∈ s.namespaces, IsSilent source) ∨ ∀ source ∈ s.podNames, IsSilent source
  /-- The error says which name is missing, the namespace first. -/
  noNamespace : s.cluster = .error (.configuration .noNamespace) ↔
    ∀ source ∈ s.namespaces, IsSilent source
  noPodName : s.cluster = .error (.configuration .noPodName) ↔
    (¬ ∀ source ∈ s.namespaces, IsSilent source) ∧ ∀ source ∈ s.podNames, IsSilent source
  /-- Outside a cluster there always is an identity: it is the same if there is one without the
  namespace of the configuration... -/
  same : ∀ id, s.alone.cluster = .ok id → s.developer n = id
  /-- ... and otherwise there are stand-ins for the names that are missing. -/
  ns : Picks s.alone.namespaces (s.developer n).ns ∨
    (∀ source ∈ s.alone.namespaces, IsSilent source) ∧ (s.developer n).ns = "default"
  pod : Picks s.podNames (s.developer n).pod ∨
    (∀ source ∈ s.podNames, IsSilent source) ∧
      (s.developer n).pod = "dev-" ++ String.ofList (decimal n)
  /-- The names are proper, and leases can be claimed under that of the pod. -/
  holds : ∀ id, s.cluster = .ok id ∨ s.developer n = id → IsProper id.ns ∧ CanHold id.pod

theorem developer_ns : (s.developer n).ns = s.alone.namespace?.getD "default" := rfl

theorem developer_pod :
    (s.developer n).pod = s.podName?.getD ("dev-" ++ String.ofList (decimal n)) := rfl

/-- A name is from a source, or from none and the one that stands in. -/
theorem getD_cases {name? : Option String} (standIn : String)
    (found : ∀ v, name? = some v ↔ Picks sources v)
    (missing : name? = none ↔ ∀ source ∈ sources, IsSilent source) :
    Picks sources (name?.getD standIn) ∨
      (∀ source ∈ sources, IsSilent source) ∧ name?.getD standIn = standIn := by
  cases name? with
  | none => exact .inr ⟨missing.1 rfl, rfl⟩
  | some v => exact .inl ((found v).1 rfl)

/-- **What can be relied on**, whatever the sources. -/
theorem isTrustworthy (s : IdentitySources) (n : Nat) : s.IsTrustworthy n := by
  have ns := getD_cases "default" (fun _ => s.alone.namespace?_eq_some) s.alone.namespace?_eq_none
  have pod := getD_cases ("dev-" ++ String.ofList (decimal n)) (fun _ => s.podName?_eq_some)
    s.podName?_eq_none
  refine
    { cluster := fun id => ?_, fails := ?_, noNamespace := ?_, noPodName := ?_, same := ?_, ns, pod
      holds := ?_ }
  · rw [cluster_eq_ok_iff, namespace?_eq_some, podName?_eq_some]
  · rw [cluster_eq_error_iff, namespace?_eq_none, podName?_eq_none]
  · rw [cluster_eq_noNamespace_iff, namespace?_eq_none]
  · rw [cluster_eq_noPodName_iff, ne_eq, namespace?_eq_none, podName?_eq_none]
  · rintro ⟨ns, pod⟩ found
    obtain ⟨foundNs, foundPod⟩ := cluster_eq_ok_iff.1 found
    have podName : s.podName? = some pod := foundPod
    calc
      s.developer n = ⟨(s.developer n).ns, (s.developer n).pod⟩ := rfl
      _ = ⟨ns, pod⟩ := by rw [developer_ns, developer_pod, foundNs, podName]; rfl
  · rintro id (found | rfl)
    · obtain ⟨foundNs, foundPod⟩ := cluster_eq_ok_iff.1 found
      exact ⟨(namespace?_eq_some.1 foundNs).isProper,
        canHold_of_isProper (podName?_eq_some.1 foundPod).isProper⟩
    · constructor
      · rcases ns with picks | ⟨-, standIn⟩
        · exact picks.isProper
        · rw [developer_ns, standIn]
          exact ⟨by decide, by decide⟩
      · refine canHold_of_isProper ?_
        rcases pod with picks | ⟨-, standIn⟩
        · exact picks.isProper
        · rw [developer_pod, standIn]
          exact isProper_standIn n

end IdentitySources

end LeasePool
