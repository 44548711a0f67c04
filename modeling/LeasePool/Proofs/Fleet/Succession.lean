import LeasePool.Proofs.Fleet.Discipline
import Mathlib.Data.List.Chain
import Mathlib.Logic.ExistsUnique

/-!
# The versions of a lease

What is stored under a key changes from version to version by one edit at a time, and each edit
was made of the version right before it. So nobody's edit is ever lost, however the requests of
the replicas are interleaved, and whatever jobs they do.
-/

namespace LeasePool

/-- The three kinds of edits. -/
inductive EditKind where
  | correction
  | claim
  | release
  deriving DecidableEq

namespace Lease

/-- Version `b` of a lease has come from version `a` by an edit of a kind: what the edit is about
is new, and all else is as before, apart from the version itself.
* A correction sets the labels that a pool manages over those that were there, and the duration,
  and at least one of the two was not right.
* A claim changes who holds the lease, when it was acquired and renewed, and how often it has gone
  from one holder to another.
* A release is made of a lease that somebody holds; it blanks the holder and removes the
  renewal. -/
def Succeeds (pools : List Pool) (b a : Lease) : EditKind → Prop
  | .correction => ∃ p ∈ pools, ∃ role : Role,
    b.metadata =
      { a.metadata with
        labels := a.metadata.labels.override (role.labels p.name)
        version := b.metadata.version } ∧
    b.claim = { a.claim with duration := some (p.duration.get role) } ∧
    (b.metadata.labels ≠ a.metadata.labels ∨ b.claim.duration ≠ a.claim.duration)
  | .claim => ∃ holder now,
    b.metadata = { a.metadata with version := b.metadata.version } ∧
    b.claim =
      { a.claim with
        holder := some holder
        renewed := some now
        acquired := b.claim.acquired
        transitions := b.claim.transitions }
  | .release => ∃ holder, a.isHeldBy holder = true ∧
    b.metadata = { a.metadata with version := b.metadata.version } ∧
    b.claim = { a.claim with holder := some "", renewed := none }

/-- No edit is of two kinds. -/
theorem Succeeds.unique {pools : List Pool} {a b : Lease} {j k : EditKind}
    (hj : b.Succeeds pools a j) (hk : b.Succeeds pools a k) : j = k := by
  -- Corrections change labels or duration and leave the holder; the others do neither. A release
  -- takes the renewal away, and a claim makes one.
  have managed : b.Succeeds pools a .correction → ¬ b.Succeeds pools a .claim := by
    rintro ⟨p, -, role, -, -, wrong⟩ ⟨holder, now, hm, hc⟩
    rcases wrong with wrong | wrong
    · exact wrong (by rw [hm])
    · exact wrong (by rw [hc])
  have kept : b.Succeeds pools a .correction → ¬ b.Succeeds pools a .release := by
    rintro ⟨p, -, role, -, hd, -⟩ ⟨holder, held, -, hc⟩
    have same : b.claim.holder = a.claim.holder := by rw [hd]
    rw [hc, (isHeldBy_iff.1 held).1] at same
    obtain rfl := Option.some.inj same
    simp [isHeldBy_iff, Text.isBlankText] at held
  have renewed : b.Succeeds pools a .claim → ¬ b.Succeeds pools a .release := by
    rintro ⟨holder, now, -, hc⟩ ⟨-, -, -, hr⟩
    have same := congrArg Claim.renewed (hc.symm.trans hr)
    contradiction
  cases j <;> cases k <;> first
    | rfl
    | exact absurd hk (managed hj)
    | exact absurd hj (managed hk)
    | exact absurd hk (kept hj)
    | exact absurd hj (kept hk)
    | exact absurd hk (renewed hj)
    | exact absurd hj (renewed hk)

/-- A lease whose managed members are wrong has other labels or another duration than it
should. -/
theorem ne_of_not_isManaged {l : Lease} {labels : Labels} {duration : Int32}
    (h : Pool.isManaged l labels duration = false) :
    l.metadata.labels.override labels ≠ l.metadata.labels ∨
      some duration ≠ l.claim.duration := by
  by_cases hl : l.metadata.labels.override labels = l.metadata.labels
  · by_cases hd : some duration = l.claim.duration
    · have same : l.edit (.manage labels duration) = l := by
        simp only [edit, hl, hd]
      simp [Pool.isManaged, same] at h
    · exact .inr hd
  · exact .inl hl

/-- An edit for which there is a reason is of one of the three kinds. -/
theorem exists_succeeds_of_justified {W : Warrant} {p : Pool} {pools : List Pool} {h : History}
    {s : MemoryStore} {a : Lease} {e : Edit} (hp : p ∈ pools) (why : W.Justifies p h a e) :
    ∃ kind, (s.stamped (a.edit e)).Succeeds pools a kind := by
  cases why with
  | @manage role manages ns wrong =>
    exact ⟨.correction, p, hp, role, rfl, rfl, ne_of_not_isManaged wrong⟩
  | @claim holder now claims past counts free =>
    refine ⟨.claim, holder, .utc now, rfl, ?_⟩
    simp only [MemoryStore.claim_stamped, edit, Claim.renewedBy]
    split <;> rfl
  | @release holder releases held => exact ⟨.release, holder, held, rfl, rfl⟩

end Lease

namespace History

/-- All versions of the lease with a key, the last one first. -/
def versionsOf (h : History) (k : LeaseKey) : List Lease := h.leases.filter fun l => l.key = k

/-- Every version succeeds the one before. -/
structure IsSuccessive (pools : List Pool) (h : History) : Prop where
  /-- What is stored is the last version. -/
  current : ∀ k, (h.versionsOf k).head? = h.scene.store.leases.get? k
  /-- An update that succeeded was computed from what was stored right before it. -/
  exact : ∀ newer w older a l, h.log = newer ++ w :: older → w.call = .updateLease a →
    w.stored? = some l → ∃ b e, w.before = some b ∧
      ({ h with log := older }.versionsOf a.key).head? = some b ∧ a = b.edit e
  /-- A version differs from the one before by exactly one edit. -/
  chain : ∀ k, (h.versionsOf k).IsChain fun b a => ∃! kind, b.Succeeds pools a kind

variable {pools : List Pool} {h h' : History}

theorem IsSuccessive.quiet (S : h.IsSuccessive pools) (q : h.Quiet h') :
    h'.IsSuccessive pools := by
  have same : ∀ log k, ({ h' with log } : History).versionsOf k =
      ({ h with log } : History).versionsOf k := by
    intro log k
    simp only [versionsOf, History.leases, q.origin]
  have all : ∀ k, h'.versionsOf k = h.versionsOf k := by
    intro k
    rw [versionsOf, versionsOf, q.leases_eq]
  refine ⟨?_, ?_, ?_⟩
  · intro k
    rw [all, q.leases]
    exact S.current k
  · intro newer w older a l hlog hw hs
    rw [same]
    exact S.exact newer w older a l (q.same ▸ hlog) hw hs
  · intro k
    rw [all]
    exact S.chain k

/-- The versions after a call that stored a lease. -/
theorem versionsOf_call {i n : Nat} {c : StoreCall} {l : Lease}
    (hs : c.stored? (h.reply c) = some l) (k : LeaseKey) :
    (h.call i n c).versionsOf k = if l.key = k then l :: h.versionsOf k else h.versionsOf k := by
  rw [versionsOf, leases_call, hs]
  by_cases hk : l.key = k <;> simp [versionsOf, hk]

/-- A call that stores nothing makes no version. -/
theorem versionsOf_call_of_not_stored {i n : Nat} {c : StoreCall}
    (hs : c.stored? (h.reply c) = none) (k : LeaseKey) :
    (h.call i n c).versionsOf k = h.versionsOf k := by
  rw [versionsOf, leases_call, hs]
  rfl

/-- What a call has stored is the last version from then on. -/
theorem head?_versionsOf_call (current : ∀ k, (h.versionsOf k).head? = h.scene.store.leases.get? k)
    {i n : Nat} {c : StoreCall} {l : Lease} (hs : c.stored? (h.reply c) = some l) (k : LeaseKey) :
    ((h.call i n c).versionsOf k).head? = (h.call i n c).scene.store.leases.get? k := by
  rw [versionsOf_call hs, get?_call_of_stored hs]
  by_cases hk : l.key = k
  · rw [if_pos hk, if_pos hk.symm]
    rfl
  · rw [if_neg hk, if_neg (Ne.symm hk)]
    exact current k

/-- **A call for which there is a reason** keeps every version a successor of the one before. -/
theorem IsSuccessive.call {W : Warrant} {p : Pool} (S : h.IsSuccessive pools) (k : h.IsSound)
    (hp : p ∈ pools) {c : StoreCall} (A : W.Allows p h c) (i n : Nat) :
    (h.call i n c).IsSuccessive pools := by
  have older : ∀ newer w older a l, (h.call i n c).log = newer ++ w :: older →
      w.call = .updateLease a → w.stored? = some l → (newer = [] ∧ older = h.log) ∨
        ∃ b e, w.before = some b ∧
          (({ h with log := older } : History).versionsOf a.key).head? = some b ∧ a = b.edit e := by
    intro newer w older a l hlog hw hs
    rw [log_call] at hlog
    rcases List.cons_eq_append_iff.1 hlog with ⟨rfl, h₁⟩ | ⟨newer', rfl, h₁⟩
    · injection h₁ with _ h₂
      exact .inl ⟨rfl, h₂⟩
    · exact .inr (S.exact newer' w older a l h₁ hw hs)
  cases hs : c.stored? (h.reply c) with
  | none =>
    have scene := scene_call_of_not_stored (i := i) (n := n) hs
    refine ⟨?_, ?_, ?_⟩
    · intro key
      rw [versionsOf_call_of_not_stored hs, scene]
      exact S.current key
    · intro newer w rest a l hlog hw hl
      rcases older newer w rest a l hlog hw hl with ⟨rfl, rfl⟩ | done
      · rw [log_call, List.nil_append] at hlog
        injection hlog with hw' _
        subst hw'
        exact absurd (hs.symm.trans hl) (by simp)
      · exact done
    · intro key
      rw [versionsOf_call_of_not_stored hs]
      exact S.chain key
  | some l =>
    have current := head?_versionsOf_call S.current hs (i := i) (n := n)
    rcases A.of_stored k hs with ⟨role, name, owners, rfl, -, free, rfl⟩ | ⟨b, e, rfl, hb, rfl, why⟩
    · refine ⟨current, ?_, ?_⟩
      · intro newer w rest a l hlog hw hl
        rcases older newer w rest a l hlog hw hl with ⟨rfl, rfl⟩ | done
        · rw [log_call, List.nil_append] at hlog
          injection hlog with hw' _
          subst hw'
          contradiction
        · exact done
      · intro k
        rw [versionsOf_call hs]
        split
        · rename_i hk
          subst hk
          have none : h.versionsOf ⟨p.ns, name⟩ = [] :=
            List.head?_eq_none_iff.1 ((S.current _).trans free)
          have : h.versionsOf (h.scene.store.stamped
            (h.scene.store.created (p.newLease role name owners))).key = [] := none
          rw [this]
          exact .singleton _
        · exact S.chain k
    · refine ⟨current, ?_, ?_⟩
      · intro newer w rest a l hlog hw hl
        rcases older newer w rest a l hlog hw hl with ⟨rfl, rfl⟩ | done
        · rw [log_call, List.nil_append] at hlog
          injection hlog with hw' _
          subst hw'
          injection hw with ha
          subst ha
          have before : h.scene.store.leases.get? (b.edit e).key = some b := by
            rw [Lease.key_edit]; exact hb
          exact ⟨b, e, before, (S.current _).trans before, rfl⟩
        · exact done
      · intro k
        rw [versionsOf_call hs]
        split
        · rename_i hk
          have hk : b.key = k := by rw [← hk, MemoryStore.key_stamped, Lease.key_edit]
          have head := (S.current k).trans (hk ▸ hb)
          obtain ⟨rest, hrest⟩ := List.head?_eq_some_iff.1 head
          have chain := S.chain k
          rw [hrest] at chain ⊢
          obtain ⟨kind, hkind⟩ := Lease.exists_succeeds_of_justified (s := h.scene.store) hp why
          exact .cons_cons ⟨kind, hkind, fun _ other => other.unique hkind⟩ chain
        · exact S.chain k

end History

namespace Fleet

/-- In a table of leases by key there is one lease of each key at most. -/
theorem filter_values {t : Table LeaseKey Lease} {k : LeaseKey}
    (H : ∀ k l, t.get? k = some l → l.key = k) :
    (t.values.filter fun l => l.key = k) = (t.get? k).toList := by
  obtain ⟨es, ascending⟩ := t
  have key : ∀ e ∈ es, e.2.key = e.1 := fun e he =>
    H e.1 e.2 ((Table.lookup_eq_some_iff ascending).2 he)
  clear H
  simp only [Table.values, Table.get?]
  induction es with
  | nil => rfl
  | cons e es ih =>
    obtain ⟨first, later⟩ := List.pairwise_cons.1 ascending
    have ih := ih later fun x hx => key x (List.mem_cons_of_mem _ hx)
    have own := key e List.mem_cons_self
    rw [List.map_cons, List.filter_cons, ih, own]
    by_cases same : e.1 = k
    · subst same
      simp [Table.lookup, Table.lookup_eq_none_of_forall_lt first]
    · simp [Table.lookup, same, Ne.symm same]

/-- At the beginning there is one version of each lease. -/
theorem IsNew.isSuccessive {f : Fleet} (new : f.IsNew) (pools : List Pool) :
    f.toHistory.IsSuccessive pools := by
  have all : ∀ k, f.versionsOf k = (f.scene.store.leases.get? k).toList := by
    intro k
    rw [History.versionsOf, History.leases, new.log, new.origin]
    exact filter_values fun k l hl => (new.store k l hl).1
  refine ⟨?_, ?_, ?_⟩
  · intro k
    rw [all]
    cases f.scene.store.leases.get? k <;> rfl
  · intro newer w older a l hlog
    rw [new.log] at hlog
    exact absurd hlog (by simp)
  · intro k
    rw [all]
    cases f.scene.store.leases.get? k with
    | none => exact .nil
    | some l => exact .singleton _

/-- **No update is lost**, whatever the replicas do, as long as they work on leases that were read
from the store: an update that succeeds was computed from exactly the lease that was stored
before it, and so each version of a lease differs from the one before by exactly one edit. -/
theorem isSuccessive_of_reaches {f g : Fleet} (new : f.IsNew) (run : Reaches Informed f g) :
    g.toHistory.IsSuccessive (g.participants.map (·.pool)) := by
  have both : g.IsDisciplined f.scene.participantOf ∧ f.toHistory.Grows g.toHistory ∧
      g.toHistory.IsSuccessive (f.participants.map (·.pool)) := by
    induction run with
    | refl => exact ⟨new.isDisciplined, .refl _, new.isSuccessive _⟩
    | @tail g g' _ turn ih =>
      obtain ⟨m, hm, turn⟩ := turn
      obtain ⟨D, grown, S⟩ := ih
      refine ⟨D.turn turn hm, grown.trans (grows_of_turn? turn), ?_⟩
      rcases quiet_or_call turn with quiet | ⟨n, e, c, next, -, he, hr, same⟩
      · exact S.quiet quiet
      · rw [same]
        refine S.call D.sound ?_ (D.allows he hr) _ _
        rw [← participants_eq_of_grows grown]
        exact List.mem_map_of_mem (D.mem_participants he)
  rw [participants_eq_of_grows both.2.1]
  exact both.2.2

/-- Two participants that do not agree for how long a claim on a member lease is good. -/
def disagreeing : Fleet :=
  let c (pod : String) (duration : Int32) : Participant :=
    { pool := { ns := "ns", name := "pool", duration := ⟨30, duration⟩, topology := .fixed 1 }
      pod, enabled := ⟨true, true⟩ }
  ofParticipants [c "a" 30, c "b" 60] ⟨0⟩

/-- A lease is created by one of them, corrected by the other, claimed and given up. -/
def manyEdits : List Move :=
  [.begin 0 (.ensureMember "member")] ++ Move.goes 0 2 ++
    [.begin 1 (.ensureMember "member")] ++ Move.goes 1 2 ++
    [.begin 0 (.renewByName "member" "a")] ++ Move.goes 2 4 ++
    [.begin 0 (.releaseLease "a" "member")] ++ Move.goes 3 2

/-- The four versions of that lease, each of which succeeds the one before. -/
theorem isSuccessive_manyEdits :
    ∃ g, disagreeing.run? (fun f m => f.Informed m) manyEdits = some g ∧
      (g.versionsOf ⟨"ns", "member"⟩).length = 4 ∧
      g.toHistory.IsSuccessive (g.participants.map (·.pool)) := by
  have leads : disagreeing.leadsTo (fun f m => f.Informed m) manyEdits
      (fun g => (g.versionsOf ⟨"ns", "member"⟩).length = 4) = true := by decide +kernel
  obtain ⟨g, run, versions⟩ := exists_of_leadsTo leads
  have reached : Reaches Informed disagreeing g :=
    reaches_of_run? (fun _ _ h => of_decide_eq_true h) run
  exact ⟨g, run, of_decide_eq_true versions,
    isSuccessive_of_reaches (isNew_ofParticipants _ _) reached⟩

end Fleet

end LeasePool
