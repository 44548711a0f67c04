import LeasePool.Lease.Metadata

/-!
# The owner of a kind

An object names one owner of a kind: its references to owners of that kind are sorted, those that
are marked as controlling first, and the first one is taken. The sort is stable, so it parts the
marked from the unmarked and changes nothing else, and the owner is the one that a search finds
which asks for a controlling owner first and for any owner of the kind afterwards.
-/

namespace LeasePool

/-! ## Sorting by a mark -/

section Marks

variable {α : Type} {marked tied : α → Bool} {l : List α}

/-- Whether an element may stand before another one when those that are marked come first. -/
def mayPrecede (marked : α → Bool) (a b : α) : Bool := marked a || !marked b

theorem mayPrecede_trans (a b c : α) (ab : mayPrecede marked a b = true)
    (bc : mayPrecede marked b c = true) : mayPrecede marked a c = true := by
  unfold mayPrecede at *
  cases mark : marked b <;> simp_all

theorem mayPrecede_total (a b : α) :
    (mayPrecede marked a b || mayPrecede marked b a) = true := by
  unfold mayPrecede
  cases marked a <;> simp

/-- Elements that may stand in any order keep the order they have. -/
theorem filter_mergeSort
    (alike : ∀ a b, tied a = true → tied b = true → mayPrecede marked a b = true) :
    (l.mergeSort (mayPrecede marked)).filter tied = l.filter tied := by
  have ordered : (l.filter tied).Pairwise fun a b => mayPrecede marked a b = true :=
    List.pairwise_filter.2 (List.pairwise_of_forall fun a b ha hb => alike a b ha hb)
  have kept : (l.filter tied).Sublist (l.mergeSort (mayPrecede marked)) :=
    List.sublist_mergeSort mayPrecede_trans mayPrecede_total ordered List.filter_sublist
  have among := kept.filter tied
  simp only [List.filter_filter, Bool.and_self] at among
  have asMany := ((List.mergeSort_perm l (mayPrecede marked)).filter tied).length_eq
  exact (among.eq_of_length asMany.symm).symm

/-- A list in which the marked elements come first consists of these and then the others. -/
theorem eq_filter_append_filter
    (sorted : l.Pairwise fun a b => mayPrecede marked a b = true) :
    l = l.filter marked ++ l.filter (!marked ·) := by
  induction l with
  | nil => rfl
  | cons a l ih =>
    obtain ⟨ahead, sorted⟩ := List.pairwise_cons.1 sorted
    cases mark : marked a with
    | true =>
      rw [List.filter_cons_of_pos mark, List.filter_cons_of_neg (by simp [mark]), List.cons_append,
        ← ih sorted]
    | false =>
      -- Behind an unmarked element there are no marked ones.
      have unmarked : ∀ b ∈ l, marked b = false := by
        intro b hb
        simpa [mayPrecede, mark] using ahead b hb
      have none : l.filter marked = [] := by simpa using unmarked
      have all : l.filter (!marked ·) = l := by simpa using unmarked
      rw [List.filter_cons_of_neg (by simp [mark]), List.filter_cons_of_pos (by simp [mark]), none,
        all, List.nil_append]

/-- **To sort by a mark is to part** the marked elements from the unmarked ones. -/
theorem mergeSort_mayPrecede :
    l.mergeSort (mayPrecede marked) = l.filter marked ++ l.filter (!marked ·) := by
  have sorted : (l.mergeSort (mayPrecede marked)).Pairwise fun a b =>
      mayPrecede marked a b = true :=
    List.pairwise_mergeSort mayPrecede_trans mayPrecede_total l
  have amongMarked : (l.mergeSort (mayPrecede marked)).filter marked = l.filter marked :=
    filter_mergeSort fun a b ha _ => by simp [mayPrecede, ha]
  have amongOthers : (l.mergeSort (mayPrecede marked)).filter (!marked ·) =
      l.filter (!marked ·) :=
    filter_mergeSort fun a b _ hb => by simp_all [mayPrecede]
  rw [eq_filter_append_filter sorted, amongMarked, amongOthers]

/-- What comes first is the first marked element, or else the first one. -/
theorem head?_mergeSort_mayPrecede :
    (l.mergeSort (mayPrecede marked)).head? = (l.find? marked).or l.head? := by
  rw [mergeSort_mayPrecede, List.head?_append, List.head?_filter]
  cases found : l.find? marked with
  | some a => rfl
  | none =>
    have all : l.filter (!marked ·) = l := by simpa using found
    rw [all]

end Marks

/-! ## Owners -/

namespace OwnerReference

variable {o : OwnerReference} {kind : String}

/-- The owner is of the kind, and it is marked as the controlling one. -/
def Controls (o : OwnerReference) (kind : String) : Prop :=
  o.kind = kind ∧ o.controller = some true

instance : Decidable (o.Controls kind) := inferInstanceAs (Decidable (_ ∧ _))

/-- An owner that says nothing about it is not controlling. -/
theorem controls_iff : o.Controls kind ↔ o.kind = kind ∧ o.isController = true := by
  unfold Controls isController
  cases o.controller <;> simp

end OwnerReference

namespace Metadata

variable {m m' : Metadata} {kind : String}

/-- The references to owners of a kind, in their order. -/
def referencesTo (m : Metadata) (kind : String) : List OwnerReference :=
  m.owners.filter (·.kind = kind)

/-- The references to controlling owners of a kind, in their order. -/
def controllersOf (m : Metadata) (kind : String) : List OwnerReference :=
  m.owners.filter (·.Controls kind)

theorem ownersOf_eq : m.ownersOf kind =
    (m.referencesTo kind).mergeSort (mayPrecede OwnerReference.isController) := rfl

/-- **The owner is found by two searches**, for a controlling owner and for any. -/
theorem ownerName?_eq :
    m.ownerName? kind =
      ((m.owners.find? (·.Controls kind)).or (m.owners.find? (·.kind = kind))).map (·.name) := by
  have controlling : (m.referencesTo kind).find? OwnerReference.isController =
      m.owners.find? (·.Controls kind) := by
    rw [referencesTo, List.find?_filter]
    congr 1
    funext o
    rw [decide_eq_decide, decide_eq_true_eq, OwnerReference.controls_iff]
  have any : (m.referencesTo kind).head? = m.owners.find? (·.kind = kind) := List.head?_filter
  rw [ownerName?, ownersOf_eq, head?_mergeSort_mayPrecede, controlling, any]

example : ({ name := "web-abc", owners := [
      { apiVersion := "apps/v1", kind := "StatefulSet", name := "db", uid := "u1",
        controller := some true },
      { apiVersion := "apps/v1", kind := "ReplicaSet", name := "other", uid := "u2" },
      { apiVersion := "apps/v1", kind := "ReplicaSet", name := "web-7d9", uid := "u3",
        controller := some true }] } : Metadata).ownerName? "ReplicaSet" = some "web-7d9" := by
  cbv

/-- Owners of other kinds make no difference. -/
theorem ownerName?_congr (same : m'.referencesTo kind = m.referencesTo kind) :
    m'.ownerName? kind = m.ownerName? kind := by
  rw [ownerName?, ownersOf_eq, same, ← ownersOf_eq, ← ownerName?]

/-- If there is a controlling owner, the owner is the first of those. -/
theorem ownerName?_of_controllersOf_ne_nil (controlled : m.controllersOf kind ≠ []) :
    m.ownerName? kind = (m.controllersOf kind).head?.map (·.name) := by
  rw [ownerName?_eq, ← List.head?_filter, ← controllersOf]
  cases controllers : m.controllersOf kind with
  | nil => contradiction
  | cons o rest => rfl

/-- Which owner of a kind an object names. -/
structure PrefersControllers (m : Metadata) (kind : String) : Prop where
  /-- It is the first controlling owner of the kind, or else the first owner of the kind, or else
  there is none. -/
  search : m.ownerName? kind =
    ((m.owners.find? (·.Controls kind)).or (m.owners.find? (·.kind = kind))).map (·.name)
  /-- Owners of other kinds make no difference, whichever they are and wherever they stand... -/
  others : ∀ m' : Metadata, m'.referencesTo kind = m.referencesTo kind →
    m'.ownerName? kind = m.ownerName? kind
  /-- ... nor do, if there is a controlling owner, those that are not controlling, in whatever order
  they stand. -/
  order : m.controllersOf kind ≠ [] → ∀ m' : Metadata,
    m'.controllersOf kind = m.controllersOf kind → m'.ownerName? kind = m.ownerName? kind

/-- **Which owner is named**, whatever the references. -/
theorem prefersControllers (m : Metadata) (kind : String) : m.PrefersControllers kind where
  search := ownerName?_eq
  others _ same := ownerName?_congr same
  order controlled m' same := by
    have controlled' : m'.controllersOf kind ≠ [] := by rwa [same]
    rw [ownerName?_of_controllersOf_ne_nil controlled',
      ownerName?_of_controllersOf_ne_nil controlled, same]

end Metadata

end LeasePool
