import LeasePool.Text.Decimal
import Mathlib.Data.String.Basic

/-!
# Digits and their numbers

Numbers are read as they were written, with any number of zeros in front. Where numbers have been
written with as many digits, their texts are in the order of the numbers.
-/

namespace LeasePool.Text

variable {as bs : List Char} {x y : List Char} {k l m n width : Nat}

/-- The value of a digit. -/
theorem toNat_of_isDigit {c : Char} (digit : c.isDigit = true) : 48 ≤ c.toNat ∧ c.toNat ≤ 57 := by
  simpa [Char.isDigit, UInt32.le_iff_toNat_le] using digit

/-! ## Plain numbers -/

theorem isDigit_of_mem_decimal {c : Char} (hc : c ∈ decimal n) : c.isDigit = true :=
  Nat.isDigit_of_mem_toDigits (by decide) (by decide) hc

/-- A positive number begins with no zero. -/
theorem head?_decimal (positive : 0 < n) : (decimal n).head? ≠ some '0' := by
  induction n using Nat.strongRecOn with
  | ind n ih =>
    rcases Nat.lt_or_ge n 10 with small | large
    · rw [decimal, Nat.toDigits_of_lt_base small]
      intro zero
      have digit : n.digitChar = '0' := Option.some.inj zero
      have value := Nat.toNat_digitChar_of_lt_ten small
      rw [digit] at value
      have zero : '0'.toNat = 48 := rfl
      omega
    · rw [decimal, Nat.toDigits_of_base_le (by decide) large]
      have first := ih (n / 10) (by omega) (by omega)
      rw [List.head?_append]
      intro zero
      cases head : (Nat.toDigits 10 (n / 10)).head? with
      | none => exact Nat.toDigits_ne_nil (List.head?_eq_none_iff.1 head)
      | some d =>
        rw [head] at zero
        exact first (head.trans zero)

/-! ## Padded numbers -/

/-- All characters of a padded number are digits. -/
theorem isDigit_of_mem_padded {c : Char} (hc : c ∈ padded width n) : c.isDigit = true := by
  rcases List.mem_append.1 hc with zero | digit
  · rw [List.eq_of_mem_replicate zero]
    rfl
  · exact isDigit_of_mem_decimal digit

/-- A number that fits has the digits that it is padded to. -/
theorem length_padded (positive : 0 < width) (small : n < 10 ^ width) :
    (padded width n).length = width := by
  have short : (decimal n).length ≤ width :=
    (Nat.length_toDigits_le_iff (by decide) positive).2 small
  rw [padded, List.length_append, List.length_replicate, Nat.sub_add_cancel short]

/-- Zeros in front of a number do not change it. -/
theorem ofDigitChars_padded : Nat.ofDigitChars 10 (padded width n) 0 = n := by
  rw [padded, Nat.ofDigitChars_append, Nat.ofDigitChars_replicate_zero, Nat.mul_zero]
  exact Nat.ofDigitChars_ten_toDigits

/-- A padded number is read as the number. -/
theorem digits?_padded : digits? (padded width n) = some n := by
  have digits : ∀ c ∈ padded width n, c.isDigit = true := fun c hc => isDigit_of_mem_padded hc
  have nonempty : padded width n ≠ [] := by
    rw [padded]
    exact List.append_ne_nil_of_right_ne_nil _ Nat.toDigits_ne_nil
  rw [digits?, if_pos ⟨nonempty, List.all_eq_true.2 digits⟩, ofDigitChars_padded]

/-! ## The order of texts -/

/-- What is appended to texts of one length counts if the texts are the same. -/
theorem append_lt_append_iff (same : as.length = bs.length) :
    as ++ x < bs ++ y ↔ as < bs ∨ as = bs ∧ x < y := by
  induction as generalizing bs with
  | nil =>
    obtain rfl := List.length_eq_zero_iff.1 same.symm
    simp
  | cons a as ih =>
    cases bs with
    | nil => contradiction
    | cons b bs =>
      rw [List.cons_append, List.cons_append, List.cons_lt_cons_iff, List.cons_lt_cons_iff,
        ih (Nat.succ.inj same), List.cons.injEq]
      tauto

/-- A greater number stays greater, whatever digits follow. -/
theorem ofDigitChars_lt_of_lt (same : as.length = bs.length) (digits : as.all Char.isDigit = true)
    (less : k < l) : Nat.ofDigitChars 10 as k < Nat.ofDigitChars 10 bs l := by
  induction as generalizing bs k l with
  | nil =>
    obtain rfl := List.length_eq_zero_iff.1 same.symm
    exact less
  | cons a as ih =>
    cases bs with
    | nil => contradiction
    | cons b bs =>
      obtain ⟨digit, digits⟩ := Bool.and_eq_true_iff.1 digits
      obtain ⟨low, high⟩ := toNat_of_isDigit digit
      rw [Nat.ofDigitChars_cons, Nat.ofDigitChars_cons]
      refine ih (Nat.succ.inj same) digits ?_
      change 10 * k + (a.toNat - 48) < 10 * l + (b.toNat - 48)
      omega

/-- **As many digits are in the order of the numbers that they denote.** -/
theorem digits_lt_iff (same : as.length = bs.length) (has : as.all Char.isDigit = true)
    (hbs : bs.all Char.isDigit = true) :
    as < bs ↔ Nat.ofDigitChars 10 as k < Nat.ofDigitChars 10 bs k := by
  induction as generalizing bs k with
  | nil =>
    obtain rfl := List.length_eq_zero_iff.1 same.symm
    simp
  | cons a as ih =>
    cases bs with
    | nil => contradiction
    | cons b bs =>
      obtain ⟨ha, later⟩ := Bool.and_eq_true_iff.1 has
      obtain ⟨hb, later'⟩ := Bool.and_eq_true_iff.1 hbs
      obtain ⟨low, -⟩ := toNat_of_isDigit ha
      obtain ⟨low', -⟩ := toNat_of_isDigit hb
      have order : a < b ↔ a.toNat < b.toNat := Iff.rfl
      rw [List.cons_lt_cons_iff, Nat.ofDigitChars_cons, Nat.ofDigitChars_cons, order]
      change _ ↔ Nat.ofDigitChars 10 as (10 * k + (a.toNat - 48)) <
        Nat.ofDigitChars 10 bs (10 * k + (b.toNat - 48))
      rcases lt_trichotomy a.toNat b.toNat with less | equal | greater
      · have less' := ofDigitChars_lt_of_lt (k := 10 * k + (a.toNat - 48))
          (l := 10 * k + (b.toNat - 48)) (Nat.succ.inj same) later (by omega)
        exact iff_of_true (.inl less) less'
      · obtain rfl : a = b := Char.toNat_inj.1 equal
        rw [ih (k := 10 * k + (a.toNat - 48)) (Nat.succ.inj same) later later']
        simp
      · have greater' := ofDigitChars_lt_of_lt (k := 10 * k + (b.toNat - 48))
          (l := 10 * k + (a.toNat - 48)) (Nat.succ.inj same.symm) later' (by omega)
        refine iff_of_false ?_ (Nat.lt_asymm greater')
        rintro (less | ⟨rfl, -⟩)
        · exact Nat.lt_asymm greater less
        · exact Nat.lt_irrefl _ greater

/-- **Texts with a number in front are in the order of the numbers** and, for the same number, in
that of what follows it. -/
theorem padded_append_lt_iff (positive : 0 < width) (hm : m < 10 ^ width) (hn : n < 10 ^ width) :
    padded width m ++ x < padded width n ++ y ↔ m < n ∨ m = n ∧ x < y := by
  have same : (padded width m).length = (padded width n).length := by
    rw [length_padded positive hm, length_padded positive hn]
  have digits : ∀ i, (padded width i).all Char.isDigit = true := fun i =>
    List.all_eq_true.2 fun _ => isDigit_of_mem_padded
  have equal : padded width m = padded width n ↔ m = n := by
    constructor
    · intro h
      have value := congrArg (Nat.ofDigitChars 10 · 0) h
      simpa only [ofDigitChars_padded] using value
    · exact congrArg _
  rw [append_lt_append_iff same, digits_lt_iff (k := 0) same (digits m) (digits n),
    ofDigitChars_padded, ofDigitChars_padded, equal]

end LeasePool.Text
