import LeasePool.Proofs.Lease.Claims
import LeasePool.Proofs.Lease.Naming
import LeasePool.Proofs.Store.Versions
import Mathlib.Data.List.Sort
import Mathlib.Order.Monotone.Basic

/-!
# Two stores with the same leases of a pool

A store with the leases of many pools, and another one that has those of one pool only. The
leases of that pool are the same in both but for what a store gives them itself: versions, which
all pools draw from one counter, and identifiers. Which versions stand for each other is noted
in a tally; a request about the leases of the pool is answered alike by both stores, and what
others do in the first store shows in neither reply.
-/

namespace LeasePool

/-! ## Where leases lie -/

/-- A pool by its name, in a namespace. -/
structure Home where
  ns : String
  pool : String
  deriving DecidableEq

/-- Whether a lease of the pool, for a role, lies there. -/
def Home.Owns (a : Home) (role : Role) (k : LeaseKey) : Prop :=
  k.ns = a.ns ∧ role.Names a.pool k.name

/-- **No two pools have a lease in common**, and no pool has one lease for both roles. -/
theorem Home.Owns.unique {a b : Home} {r s : Role} {k : LeaseKey} (hr : a.Owns r k)
    (hs : b.Owns s k) : r = s ∧ a = b := by
  obtain ⟨role, pool⟩ := hr.2.unique hs.2
  obtain ⟨ns, name⟩ := a
  obtain ⟨ms, mame⟩ := b
  have same : ns = ms := hr.1.symm.trans hs.1
  exact ⟨role, Home.mk.injEq .. ▸ ⟨same, pool⟩⟩

/-- A lease lies where those of the pool lie, and has their labels. -/
structure Lease.IsOf (a : Home) (role : Role) (l : Lease) : Prop where
  owned : a.Owns role l.key
  labels : l.metadata.labels = role.labels a.pool

/-- The lease without what a store gives it: its version and its identifier. -/
def Lease.bare (l : Lease) : Lease :=
  { l with metadata := { l.metadata with version := none, uid := none } }

/-! ## Twins -/

/-- Which versions of two stores stand for each other. -/
abbrev Tally := Nat → Nat → Prop

/-- The tally with two more versions that stand for each other. -/
def Tally.extend (t : Tally) (m n : Nat) : Tally := fun i j => t i j ∨ i = m ∧ j = n

theorem Tally.le_extend {t : Tally} {m n : Nat} : t ≤ t.extend m n := fun _ _ h => .inl h

namespace Lease

/-- Two leases of a pool that are the same but for versions that stand for each other and for
their identifiers. -/
structure Twins (a : Home) (role : Role) (t : Tally) (l l' : Lease) : Prop where
  isOf : l.IsOf a role
  bare : l.bare = l'.bare
  versions : ∃ m n, t m n ∧ l.metadata.version = some (MemoryStore.versionText m) ∧
    l'.metadata.version = some (MemoryStore.versionText n)

variable {a : Home} {role : Role} {t u : Tally} {l l' : Lease}

theorem Twins.mono (h : l.Twins a role t l') (le : t ≤ u) : l.Twins a role u l' := by
  obtain ⟨m, n, paired, versions⟩ := h.versions
  exact ⟨h.isOf, h.bare, m, n, le m n paired, versions⟩

/-- What two leases that are the same but for version and identifier have in common. -/
theorem of_bare_eq (h : l.bare = l'.bare) : l'.key = l.key ∧ l'.claim = l.claim ∧
    l'.metadata.labels = l.metadata.labels := by
  have key : l.bare.key = l'.bare.key := congrArg _ h
  have claim : l.bare.claim = l'.bare.claim := congrArg _ h
  have labels : l.bare.metadata.labels = l'.bare.metadata.labels := by rw [h]
  exact ⟨key.symm, claim.symm, labels.symm⟩

theorem Twins.key (h : l.Twins a role t l') : l'.key = l.key := (of_bare_eq h.bare).1

theorem Twins.name (h : l.Twins a role t l') : l'.name = l.name := congrArg LeaseKey.name h.key

theorem Twins.claim (h : l.Twins a role t l') : l'.claim = l.claim := (of_bare_eq h.bare).2.1

theorem Twins.labels (h : l.Twins a role t l') : l'.metadata.labels = l.metadata.labels :=
  (of_bare_eq h.bare).2.2

theorem Twins.isOf' (h : l.Twins a role t l') : l'.IsOf a role where
  owned := by rw [h.key]; exact h.isOf.owned
  labels := by rw [h.labels]; exact h.isOf.labels

theorem Twins.isHeldBy (h : l.Twins a role t l') (identity : String) :
    l'.isHeldBy identity = l.isHeldBy identity := by
  rw [Lease.isHeldBy, Lease.isHeldBy, Lease.holder?, Lease.holder?, h.claim]

theorem Twins.availableTo? (h : l.Twins a role t l') (requester : String) (now : Instant) :
    l'.availableTo? requester now = l.availableTo? requester now := by
  simp only [Lease.availableTo?, Lease.holder?, Lease.expiry, h.claim]

theorem Twins.admits (h : l.Twins a role t l') (holder : String) :
    l'.admits holder = l.admits holder := by
  simp only [Lease.admits, Lease.holder?, h.claim]

theorem bare_edit {e : Edit} : (l.edit e).bare = l.bare.edit e := by
  cases e <;> rfl

/-- An edit that sets no labels but those of the role. -/
theorem Twins.edit (h : l.Twins a role t l') {e : Edit}
    (own : ∀ labels duration, e = .manage labels duration → labels = role.labels a.pool) :
    (l.edit e).Twins a role t (l'.edit e) where
  isOf := by
    refine ⟨(key_edit (l := l)).symm ▸ h.isOf.owned, ?_⟩
    cases e with
    | manage labels duration =>
      have same := own labels duration rfl
      simp only [Lease.edit, same, h.isOf.labels]
      refine Table.ext_get? ?_
      intro k
      rw [Table.get?_override, Option.or_self]
    | claim holder now => exact h.isOf.labels
    | release => exact h.isOf.labels
  bare := by rw [bare_edit, bare_edit, h.bare]
  versions := by
    rw [version_edit, version_edit]
    exact h.versions

end Lease

/-! ## Replies -/

/-- Two replies that are the same but for what was replied, and that is related. -/
inductive Agree {α β : Type} (R : α → β → Prop) : Except PoolError α → Except PoolError β → Prop
  | ok {x : α} {y : β} (related : R x y) : Agree R (.ok x) (.ok y)
  | error (e : PoolError) : Agree R (.error e) (.error e)

theorem optionRel_imp {α β : Type} {R S : α → β → Prop} (h : ∀ x y, R x y → S x y)
    {x : Option α} {y : Option β} (rel : Option.Rel R x y) : Option.Rel S x y := by
  cases rel with
  | some related => exact .some (h _ _ related)
  | none => exact .none

/-- Two lists of twins, in the same order. -/
def Lease.TwinLists (a : Home) (role : Role) (t : Tally) (ls ls' : List Lease) : Prop :=
  ∃ pairs : List (Lease × Lease), (∀ x ∈ pairs, x.1.Twins a role t x.2) ∧
    ls = pairs.map (·.1) ∧ ls' = pairs.map (·.2)

namespace MemoryStore

/-- The second store has the leases of a pool, the same as in the first, and no others. -/
structure Mirrors (a : Home) (t : Tally) (s s' : MemoryStore) : Prop where
  offline : s'.offline = s.offline
  workloads : s'.workloads = s.workloads
  leases : ∀ role k, a.Owns role k →
    Option.Rel (Lease.Twins a role t) (s.leases.get? k) (s'.leases.get? k)
  others : ∀ k, (∀ role, ¬ a.Owns role k) → s'.leases.get? k = none
  /-- Versions that stand for each other have been given out. -/
  given : ∀ m n, t m n → m ≤ s.version ∧ n ≤ s'.version
  /-- No version stands for two. -/
  paired : ∀ m n m' n', t m n → t m' n' → (m = m' ↔ n = n')

/-- All leases lie under their own keys, and each is a lease of a pool. -/
def IsOrderly (s : MemoryStore) : Prop :=
  ∀ k l, s.leases.get? k = some l → l.key = k ∧ ∃ a role, l.IsOf a role

variable {a : Home} {role : Role} {t : Tally} {s s' : MemoryStore} {l l' : Lease}

theorem Mirrors.get?_eq_none (M : s.Mirrors a t s') {k : LeaseKey} (owns : a.Owns role k)
    (hs : s.leases.get? k = none) : s'.leases.get? k = none := by
  have both := M.leases role k owns
  rw [hs] at both
  generalize s'.leases.get? k = found at both
  cases both
  rfl

theorem Mirrors.exists_twin (M : s.Mirrors a t s') {k : LeaseKey} (owns : a.Owns role k)
    (hs : s.leases.get? k = some l) :
    ∃ l', s'.leases.get? k = some l' ∧ l.Twins a role t l' := by
  have both := M.leases role k owns
  rw [hs] at both
  generalize s'.leases.get? k = found at both
  cases both with
  | some twins => exact ⟨_, rfl, twins⟩

/-- What the second store has is a twin of what the first one has. -/
theorem Mirrors.of_mirrored (M : s.Mirrors a t s') {k : LeaseKey}
    (hs' : s'.leases.get? k = some l') :
    ∃ role l, a.Owns role k ∧ s.leases.get? k = some l ∧ l.Twins a role t l' := by
  have own : ∃ role, a.Owns role k := by
    by_contra foreign
    rw [M.others k fun role owns => foreign ⟨role, owns⟩] at hs'
    contradiction
  obtain ⟨role, owns⟩ := own
  cases hs : s.leases.get? k with
  | none =>
    rw [M.get?_eq_none owns hs] at hs'
    contradiction
  | some l =>
    obtain ⟨m, hm, twins⟩ := M.exists_twin owns hs
    obtain rfl := Option.some.inj (hm.symm.trans hs')
    exact ⟨role, l, owns, rfl, twins⟩

theorem Mirrors.getLease (M : s.Mirrors a t s') {name : String} (named : role.Names a.pool name) :
    Agree (Option.Rel (Lease.Twins a role t)) (s.answer (.getLease a.ns name)).2
      (s'.answer (.getLease a.ns name)).2 := by
  simp only [answer, M.offline]
  split
  · exact .error _
  · exact .ok (M.leases role ⟨a.ns, name⟩ ⟨rfl, named⟩)

theorem Mirrors.getWorkload (M : s.Mirrors a t s') {kind : WorkloadKind} {ns name : String} :
    (s'.answer (.getWorkload kind ns name)).2 = (s.answer (.getWorkload kind ns name)).2 := by
  simp only [answer, M.offline, workload?, M.workloads]
  split <;> rfl

/-- A request that wants to write nothing stores nothing. -/
theorem stored?_eq_none {c : StoreCall} {r : c.Reply} (h : c.written? = none) :
    c.stored? r = none := by
  cases c with
  | createLease l | updateLease l => contradiction
  | getLease | listLeases | getWorkload => rfl

/-! ## Writes -/

/-- **The same lease written to both stores**: the two new versions stand for each other from
then on. -/
theorem Mirrors.write (M : s.Mirrors a t s') (isOf : l.IsOf a role) (bare : l.bare = l'.bare) :
    (s.write l).Mirrors a (t.extend (s.version + 1) (s'.version + 1)) (s'.write l') ∧
      (s.stamped l).Twins a role (t.extend (s.version + 1) (s'.version + 1)) (s'.stamped l') := by
  have key : l'.key = l.key := (Lease.of_bare_eq bare).1
  have twins : (s.stamped l).Twins a role (t.extend (s.version + 1) (s'.version + 1))
      (s'.stamped l') :=
    ⟨⟨isOf.owned, isOf.labels⟩, bare, s.version + 1, s'.version + 1, .inr ⟨rfl, rfl⟩, rfl, rfl⟩
  refine ⟨⟨M.offline, M.workloads, ?_, ?_, ?_, ?_⟩, twins⟩
  · intro r k owns
    rw [get?_write, get?_write, key]
    split
    · rename_i own
      obtain ⟨rfl, -⟩ := owns.unique (own ▸ isOf.owned)
      exact .some twins
    · exact optionRel_imp (fun _ _ old => old.mono Tally.le_extend) (M.leases r k owns)
  · intro k foreign
    have other : k ≠ l'.key := fun own => foreign role (own ▸ key ▸ isOf.owned)
    rw [get?_write, if_neg other, M.others k foreign]
  · rintro m n (old | ⟨rfl, rfl⟩)
    · obtain ⟨hm, hn⟩ := M.given m n old
      exact ⟨Nat.le_succ_of_le hm, Nat.le_succ_of_le hn⟩
    · exact ⟨Nat.le_refl _, Nat.le_refl _⟩
  · rintro m n m' n' (old | ⟨rfl, rfl⟩) (old' | ⟨rfl, rfl⟩)
    · exact M.paired m n m' n' old old'
    · have := M.given m n old
      omega
    · have := M.given m' n' old'
      omega
    · simp

/-- A lease that is created is created in both stores, or in neither. -/
theorem Mirrors.createLease (M : s.Mirrors a t s') (isOf : l.IsOf a role) :
    ∃ u, t ≤ u ∧ (s.answer (.createLease l)).1.Mirrors a u (s'.answer (.createLease l)).1 ∧
      Agree (Lease.Twins a role u) (s.answer (.createLease l)).2
        (s'.answer (.createLease l)).2 := by
  simp only [answer, M.offline]
  split
  · exact ⟨t, le_rfl, M, .error _⟩
  · cases hs : s.leases.get? l.key with
    | some b =>
      obtain ⟨b', hs', -⟩ := M.exists_twin isOf.owned hs
      rw [create_of_taken hs, create_of_taken hs']
      exact ⟨t, le_rfl, M, .error _⟩
    | none =>
      rw [create_of_free hs, create_of_free (M.get?_eq_none isOf.owned hs)]
      have isOf' : (s.created l).IsOf a role := ⟨isOf.owned, isOf.labels⟩
      have bare : (s.created l).bare = (s'.created l).bare := rfl
      obtain ⟨mirrors, twins⟩ := M.write isOf' bare
      exact ⟨_, Tally.le_extend, mirrors, .ok twins⟩

/-- Twins show the stored versions, or neither does. -/
theorem Mirrors.shows_iff (M : s.Mirrors a t s') {b b' : Lease} (twins : l.Twins a role t l')
    (stored : b.Twins a role t b') : Shows l b ↔ Shows l' b' := by
  obtain ⟨m, n, paired, hm, hn⟩ := twins.versions
  obtain ⟨m', n', paired', hm', hn'⟩ := stored.versions
  have same := M.paired m n m' n' paired paired'
  have left : versionText m = versionText m' ↔ m = m' := ⟨versionText_injective, congrArg _⟩
  have right : versionText n = versionText n' ↔ n = n' := ⟨versionText_injective, congrArg _⟩
  simp [Shows, hm, hn, hm', hn', left, right, same]

/-- An update that shows versions which stand for each other is let through by both stores, or
by neither. -/
theorem Mirrors.updateLease (M : s.Mirrors a t s') (twins : l.Twins a role t l') :
    ∃ u, t ≤ u ∧ (s.answer (.updateLease l)).1.Mirrors a u (s'.answer (.updateLease l')).1 ∧
      Agree (Lease.Twins a role u) (s.answer (.updateLease l)).2
        (s'.answer (.updateLease l')).2 := by
  simp only [answer, M.offline]
  split
  · exact ⟨t, le_rfl, M, .error _⟩
  · cases hs : s.leases.get? l.key with
    | none =>
      have hs' := M.get?_eq_none twins.isOf.owned hs
      rw [← twins.key] at hs'
      rw [update_of_missing hs, update_of_missing hs', twins.name]
      exact ⟨t, le_rfl, M, .error _⟩
    | some b =>
      obtain ⟨b', hs', same⟩ := M.exists_twin twins.isOf.owned hs
      rw [← twins.key] at hs'
      by_cases shows : Shows l b
      · have shows' : Shows l' b' := (M.shows_iff twins same).1 shows
        rw [update_of_shows hs shows, update_of_shows hs' shows']
        obtain ⟨mirrors, written⟩ := M.write twins.isOf twins.bare
        exact ⟨_, Tally.le_extend, mirrors, .ok written⟩
      · have shows' : ¬ Shows l' b' := fun h => shows ((M.shows_iff twins same).2 h)
        rw [update_of_not_shows hs shows, update_of_not_shows hs' shows', twins.name]
        exact ⟨t, le_rfl, M, .error _⟩

/-- **What is done to leases of others** leaves those of the pool as they are. -/
theorem Mirrors.answer_of_others (M : s.Mirrors a t s') {c : StoreCall}
    (foreign : ∀ l, c.written? = some l → ∀ role, ¬ a.Owns role l.key) :
    (s.answer c).1.Mirrors a t s' := by
  -- A write under the key of somebody else.
  have written : ∀ l, (∀ role, ¬ a.Owns role l.key) → (s.write l).Mirrors a t s' := by
    intro l foreign
    refine ⟨M.offline, M.workloads, ?_, M.others, ?_, M.paired⟩
    · intro r k owns
      have other : k ≠ l.key := fun own => foreign r (own ▸ owns)
      rw [get?_write, if_neg other]
      exact M.leases r k owns
    · intro m n h
      exact ⟨Nat.le_succ_of_le (M.given m n h).1, (M.given m n h).2⟩
  cases hc : c.stored? (s.answer c).2 with
  | none => rw [answer_of_not_stored hc]; exact M
  | some l =>
    rcases stored?_answer hc with ⟨b, rfl, -, -, hw⟩ | ⟨b, -, rfl, -, -, -, hw⟩
    · rw [hw]; exact written _ (foreign b rfl)
    · rw [hw]; exact written _ (foreign b rfl)

/-! ## Lists -/

/-- The leases that a member scan of a pool finds. -/
def membersOf (s : MemoryStore) (a : Home) : List Lease :=
  (s.leasesOf a.ns).filter fun l => (memberSelector a.pool).selects l.metadata.labels

/-- What is listed, lies in the store. -/
theorem mem_leasesOf_iff (keyed : ∀ k l, s.leases.get? k = some l → l.key = k) {ns : String} :
    l ∈ s.leasesOf ns ↔ s.leases.get? l.key = some l ∧ l.metadata.ns = ns := by
  simp only [leasesOf, List.mem_map, List.mem_filter, Prod.exists, decide_eq_true_eq,
    ← Table.get?_eq_some_iff]
  constructor
  · rintro ⟨k, m, ⟨found, rfl⟩, rfl⟩
    obtain rfl := keyed k m found
    exact ⟨found, rfl⟩
  · rintro ⟨found, rfl⟩
    exact ⟨l.key, l, ⟨found, rfl⟩, rfl⟩

/-- Leases are listed in ascending order of their keys. -/
theorem pairwise_leasesOf (keyed : ∀ k l, s.leases.get? k = some l → l.key = k) {ns : String} :
    (s.leasesOf ns).Pairwise fun l m => l.key < m.key := by
  rw [leasesOf, List.pairwise_map]
  refine (s.leases.ascending.filter _).imp_of_mem ?_
  intro e f he hf lt
  have hk := keyed e.1 e.2 (Table.get?_eq_some_iff.2 (List.mem_filter.1 he).1)
  have hk' := keyed f.1 f.2 (Table.get?_eq_some_iff.2 (List.mem_filter.1 hf).1)
  rwa [hk, hk']

/-- Lists in ascending order, with leases under the same keys, have them in the same order. -/
theorem forall₂_key_of_mem_iff {ls ls' : List Lease} (h : ls.Pairwise fun l m => l.key < m.key)
    (h' : ls'.Pairwise fun l m => l.key < m.key)
    (same : ∀ k, k ∈ ls.map Lease.key ↔ k ∈ ls'.map Lease.key) :
    List.Forall₂ (fun l m => l.key = m.key) ls ls' := by
  have : Std.Irrefl (fun j k : LeaseKey => j < k) := ⟨Key.lt_irrefl⟩
  have : Std.Antisymm (fun j k : LeaseKey => j < k) :=
    ⟨fun j k hjk hkj => absurd (Key.lt_trans hjk hkj) (Key.lt_irrefl j)⟩
  have keys : ls.map Lease.key = ls'.map Lease.key :=
    (List.pairwise_map.2 h).eq_of_mem_iff (List.pairwise_map.2 h') same
  rw [← List.forall₂_eq_eq_eq, List.forall₂_map_left_iff, List.forall₂_map_right_iff] at keys
  exact keys

/-- What the selector finds in an orderly store: the leases of the members of the pool. -/
theorem IsOrderly.mem_members_iff (orderly : s.IsOrderly) :
    l ∈ s.membersOf a ↔ s.leases.get? l.key = some l ∧ l.IsOf a .member := by
  rw [membersOf, List.mem_filter, mem_leasesOf_iff fun k l h => (orderly k l h).1]
  constructor
  · rintro ⟨⟨found, ns⟩, selected⟩
    obtain ⟨-, b, role, isOf⟩ := orderly _ _ found
    rw [isOf.labels, selects_memberSelector_labels_iff] at selected
    obtain ⟨rfl, pool⟩ := selected
    exact ⟨found, ⟨ns, pool ▸ isOf.owned.2⟩, pool ▸ isOf.labels⟩
  · rintro ⟨found, isOf⟩
    exact ⟨⟨found, isOf.owned.1⟩, by rw [isOf.labels, selects_memberSelector_iff]⟩

/-- A store stays orderly if all that is written is leases of pools. -/
theorem IsOrderly.answer (orderly : s.IsOrderly) {c : StoreCall}
    (isOf : ∀ l, c.written? = some l → ∃ a role, l.IsOf a role) : (s.answer c).1.IsOrderly := by
  have written : ∀ l a role, l.IsOf a role → (s.write l).IsOrderly := by
    intro l a role isOf k m hm
    rw [get?_write] at hm
    split at hm
    · rename_i own
      obtain rfl := Option.some.inj hm
      exact ⟨own.symm, a, role, isOf.owned, isOf.labels⟩
    · exact orderly k m hm
  cases hc : c.stored? (s.answer c).2 with
  | none => rw [answer_of_not_stored hc]; exact orderly
  | some l =>
    rcases stored?_answer hc with ⟨b, rfl, -, -, hw⟩ | ⟨b, -, rfl, -, -, -, hw⟩
    · obtain ⟨a, role, isOf⟩ := isOf b rfl
      rw [hw]
      exact written _ a role ⟨isOf.owned, isOf.labels⟩
    · obtain ⟨a, role, isOf⟩ := isOf b rfl
      rw [hw]
      exact written _ a role isOf

/-- A store that mirrors an orderly one is orderly. -/
theorem Mirrors.isOrderly (M : s.Mirrors a t s') (orderly : s.IsOrderly) : s'.IsOrderly := by
  intro k l' hl'
  obtain ⟨role, l, owns, hl, twins⟩ := M.of_mirrored hl'
  exact ⟨twins.key.trans (orderly k l hl).1, a, role, twins.isOf'⟩

/-- **Both stores list the same members** of the pool. -/
theorem Mirrors.listLeases (M : s.Mirrors a t s') (orderly : s.IsOrderly) :
    Agree (Lease.TwinLists a .member t)
      (s.answer (.listLeases a.ns (memberSelector a.pool))).2
      (s'.answer (.listLeases a.ns (memberSelector a.pool))).2 := by
  have orderly' := M.isOrderly orderly
  have pairs : List.Forall₂ (fun l m => l.key = m.key) (s.membersOf a) (s'.membersOf a) := by
    refine forall₂_key_of_mem_iff ((pairwise_leasesOf fun k l h => (orderly k l h).1).filter _)
      ((pairwise_leasesOf fun k l h => (orderly' k l h).1).filter _) ?_
    intro k
    rw [List.mem_map, List.mem_map]
    constructor
    · rintro ⟨l, hl, rfl⟩
      obtain ⟨found, isOf⟩ := orderly.mem_members_iff.1 hl
      obtain ⟨l', found', twins⟩ := M.exists_twin isOf.owned found
      have stored := twins.key ▸ found'
      exact ⟨l', orderly'.mem_members_iff.2 ⟨stored, twins.isOf'⟩, twins.key⟩
    · rintro ⟨l', hl', rfl⟩
      obtain ⟨found', isOf'⟩ := orderly'.mem_members_iff.1 hl'
      obtain ⟨role, l, owns, found, twins⟩ := M.of_mirrored found'
      obtain ⟨rfl, -⟩ := owns.unique isOf'.owned
      have stored := twins.key ▸ found
      exact ⟨l, orderly.mem_members_iff.2 ⟨stored, twins.isOf⟩, twins.key.symm⟩
  obtain ⟨length, keys⟩ := List.forall₂_iff_zip.1 pairs
  simp only [answer, M.offline]
  split
  · exact .error _
  · refine .ok ⟨(s.membersOf a).zip (s'.membersOf a), ?_, (List.map_fst_zip length.le).symm,
      (List.map_snd_zip length.ge).symm⟩
    rintro ⟨l, m⟩ hx
    obtain ⟨found, isOf⟩ := orderly.mem_members_iff.1 (List.of_mem_zip hx).1
    obtain ⟨found', -⟩ := orderly'.mem_members_iff.1 (List.of_mem_zip hx).2
    obtain ⟨l', hl', twins⟩ := M.exists_twin isOf.owned found
    rw [keys hx, found'] at hl'
    obtain rfl := Option.some.inj hl'
    exact twins

end MemoryStore

end LeasePool
