import LeasePool.Proofs.Text.Digits
import LeasePool.Text.Blank
import Mathlib.Data.List.TakeWhile

/-!
# What trimming leaves

The blanks at the two ends of a text are cut off and nothing else, so there is nothing left to cut
off from what has been trimmed.
-/

namespace LeasePool.Text

/-- The text consists of blanks. -/
def Blanks (s : List Char) : Prop := ∀ c ∈ s, isBlank c = true

/-- The text has no blank at its two ends. -/
structure HasBareEnds (s : List Char) : Prop where
  head : ∀ c, s.head? = some c → isBlank c = false
  last : ∀ c, s.getLast? = some c → isBlank c = false

theorem blanks_nil : Blanks [] := List.forall_mem_nil _

theorem blanks_append {s t : List Char} : Blanks (s ++ t) ↔ Blanks s ∧ Blanks t := by
  simp [Blanks, or_imp, forall_and]

theorem isBlank_of_isDigit {c : Char} (h : c.isDigit = true) : isBlank c = false := by
  have range := toNat_of_isDigit h
  simp only [isBlank]
  grind

theorem dropWhile_isBlank {s : List Char} (head : ∀ c, s.head? = some c → isBlank c = false) :
    s.dropWhile isBlank = s := by
  cases s with
  | nil => rfl
  | cons c s => simp [head c rfl]

/-- What is between the blanks at the ends is left. -/
theorem trimChars_append {before s after : List Char} (hb : Blanks before) (ha : Blanks after)
    (bare : HasBareEnds s) : trimChars (before ++ s ++ after) = s := by
  by_cases empty : s = []
  · subst empty
    rw [trimChars_eq_nil_iff, List.all_eq_true]
    rw [List.append_nil]
    exact blanks_append.2 ⟨hb, ha⟩
  · have first : (before ++ s ++ after).dropWhile isBlank = s ++ after := by
      rw [List.append_assoc, List.dropWhile_append_of_pos hb]
      apply dropWhile_isBlank
      intro c hc
      rw [List.head?_append, List.head?_eq_some_head empty] at hc
      exact bare.head c ((List.head?_eq_some_head empty).trans hc)
    have last : (s ++ after).reverse.dropWhile isBlank = s.reverse := by
      rw [List.reverse_append, List.dropWhile_append_of_pos]
      · apply dropWhile_isBlank
        intro c hc
        rw [List.head?_reverse] at hc
        exact bare.last c hc
      · intro c hc
        exact ha c (List.mem_reverse.1 hc)
    rw [trimChars, first, last, List.reverse_reverse]

/-- The blanks at the beginning are cut off first. -/
theorem dropWhile_eq_trimChars_append (s : List Char) : s.dropWhile isBlank =
    trimChars s ++ ((s.dropWhile isBlank).reverse.takeWhile isBlank).reverse := by
  rw [trimChars, ← List.reverse_append, List.takeWhile_append_dropWhile, List.reverse_reverse]

/-- Nothing but blanks is cut off. -/
theorem exists_eq_trimChars (s : List Char) :
    ∃ before after, s = before ++ trimChars s ++ after ∧ Blanks before ∧ Blanks after := by
  refine ⟨s.takeWhile isBlank, ((s.dropWhile isBlank).reverse.takeWhile isBlank).reverse, ?_, ?_,
    ?_⟩
  · rw [List.append_assoc, ← dropWhile_eq_trimChars_append, List.takeWhile_append_dropWhile]
  · intro c hc
    exact List.mem_takeWhile_imp hc
  · intro c hc
    exact List.mem_takeWhile_imp (List.mem_reverse.1 hc)

/-- Trimming leaves no blank at the two ends. -/
theorem hasBareEnds_trimChars (s : List Char) : HasBareEnds (trimChars s) := by
  have ends : ∀ (l : List Char) (c : Char),
      (l.dropWhile isBlank).head? = some c → isBlank c = false := by
    intro l c hc
    have other := List.head?_dropWhile_not isBlank l
    rw [hc] at other
    exact other
  constructor
  · intro c hc
    refine ends s c ?_
    rw [dropWhile_eq_trimChars_append, List.head?_append, hc]
    rfl
  · intro c hc
    rw [trimChars, List.getLast?_reverse] at hc
    exact ends _ c hc

/-- **There is nothing left to trim** of what has been trimmed. -/
theorem trim_trim (s : String) : trim (trim s) = trim s := by
  have same := trimChars_append blanks_nil blanks_nil (hasBareEnds_trimChars s.toList)
  rw [List.nil_append, List.append_nil] at same
  rw [trim, trim, String.toList_ofList, same]

/-- What is left of a text that is not blank is not blank. -/
theorem isBlankText_trim (s : String) : isBlankText (trim s) = isBlankText s := by
  rw [Bool.eq_iff_iff, ← trim_eq_empty_iff, ← trim_eq_empty_iff, trim_trim]

end LeasePool.Text
