import LeasePool.Proofs.Text.Digits
import LeasePool.Proofs.Toml.Texts

/-!
# Values are read as they are written

A value ends at the end of its line. A number looks like the beginning of a date or of a float until
it is known what comes after its digits; the end of the line is neither a dash nor a colon, nor a
point, nor the beginning of an exponent.
-/

namespace LeasePool.Toml

open Text (decimal signed isDigit_of_mem_decimal head?_decimal)

variable {c : Char} {n : Nat} {ds rest : List Char}

/-! ## Digits -/

/-- Digits up to something that is none of a number. -/
theorem digitTail_append (digits : ∀ d ∈ ds, d.isDigit = true) (other : c.isDigit = false)
    (bare : c ≠ '_') : digitTail Char.isDigit (ds ++ c :: rest) = (ds, c :: rest) := by
  induction ds with
  | nil =>
    rw [List.nil_append, digitTail]
    · simp [other]
    · exact fun _ _ same => (bare same).elim
  | cons d ds ih =>
    obtain ⟨here, later⟩ := List.forall_mem_cons.1 digits
    have noBar : d ≠ '_' := ne_of_test here rfl
    rw [List.cons_append, digitTail, if_pos here, ih later]
    · rfl
    · exact fun _ _ same => (noBar same).elim

/-- **The digits of a number** are a whole number. -/
theorem whole?_decimal (other : c.isDigit = false) (bare : c ≠ '_') :
    whole? (decimal n ++ c :: rest) = some (decimal n, c :: rest) := by
  rcases Nat.eq_zero_or_pos n with rfl | positive
  · rfl
  · have first := head?_decimal positive
    have digits : ∀ d ∈ decimal n, d.isDigit = true := fun d => isDigit_of_mem_decimal
    cases layout : decimal n with
    | nil => exact absurd layout Nat.toDigits_ne_nil
    | cons d ds =>
      rw [layout] at first digits
      obtain ⟨here, later⟩ := List.forall_mem_cons.1 digits
      have noZero : d ≠ '0' := fun same => first (congrArg some same)
      rw [List.cons_append, whole?, digits?, if_pos here, digitTail_append later other bare]
      · rfl
      · exact fun _ same => (noZero (List.cons.inj same).1).elim

/-- Digits denote in this way what they denote in any other. -/
theorem ofDigits?_eq {negative : Bool} (digits : ∀ d ∈ ds, d.isDigit = true) :
    ofDigits? 10 negative ds =
      if negative then
        if Nat.ofDigitChars 10 ds 0 ≤ Nat.pow 2 63 then
          some (.integer (-(Nat.ofDigitChars 10 ds 0 : Int))) else none
      else if Nat.ofDigitChars 10 ds 0 < Nat.pow 2 63 then
        some (.integer (Nat.ofDigitChars 10 ds 0)) else none := by
  have values : ds.mapM Text.hexDigit? = some (ds.map fun d => d.toNat - 48) := by
    induction ds with
    | nil => rfl
    | cons d ds ih =>
      obtain ⟨here, later⟩ := List.forall_mem_cons.1 digits
      simp [Text.hexDigit?, here, ih later]
  have total : ∀ k, (ds.map fun d => d.toNat - 48).foldl (fun n d => n * 10 + d) k =
      Nat.ofDigitChars 10 ds k := by
    intro k
    rw [List.foldl_map, Nat.ofDigitChars_eq_foldl]
    congr 1
    funext m d
    rw [Nat.mul_comm]
    rfl
  rw [ofDigits?, values, ← total]
  rfl

/-! ## What is no date -/

/-- The input begins with digits before a dash or a colon. -/
def BeginsDate (input : List Char) : Prop :=
  ∃ ds c rest, input = ds ++ c :: rest ∧ (∀ d ∈ ds, d.isDigit = true) ∧ ds ≠ [] ∧
    (c = '-' ∨ c = ':')

theorem forall_isDigit_of_digits? {m : Nat} (h : Text.digits? ds = some m) :
    ∀ d ∈ ds, d.isDigit = true := by
  rw [Text.digits?] at h
  split at h
  · rename_i cond
    exact List.all_eq_true.1 cond.2
  · contradiction

/-- A time of the day begins with digits before a colon. -/
theorem beginsDate_of_time? {input : List Char} (h : (time? input).isSome = true) :
    BeginsDate input := by
  obtain ⟨r, h⟩ := Option.isSome_iff_exists.1 h
  rw [time?, Option.bind_eq_bind, Option.bind_eq_some_iff] at h
  obtain ⟨⟨m, after⟩, hours, h⟩ := h
  match input with
  | [] | [_] => contradiction
  | x :: y :: input =>
    rw [twoDigits?, Option.bind_eq_bind, Option.bind_eq_some_iff] at hours
    obtain ⟨k, digits, hours⟩ := hours
    obtain ⟨rfl, rfl⟩ : k = m ∧ input = after := by
      split at hours
      · simpa using hours
      · contradiction
    match input with
    | [] => contradiction
    | c :: rest =>
      have colon : c = ':' := by
        by_contra other
        simp [Text.after?, other] at h
      exact ⟨[x, y], c, rest, rfl, forall_isDigit_of_digits? digits, List.cons_ne_nil _ _,
        .inr colon⟩

/-- A calendar date begins with digits before a dash. -/
theorem beginsDate_of_calendarDate? {input : List Char}
    (h : (calendarDate? input).isSome = true) : BeginsDate input := by
  unfold calendarDate? at h
  split at h
  · rename_i w x y z rest
    cases digits : Text.digits? [w, x, y, z] with
    | none =>
      rw [digits] at h
      contradiction
    | some year =>
      exact ⟨[w, x, y, z], '-', rest, rfl, forall_isDigit_of_digits? digits, List.cons_ne_nil _ _,
        .inl rfl⟩
  · contradiction

/-- **What does not begin like a date or a time** is none. -/
theorem date?_eq_none {input : List Char} (other : ¬ BeginsDate input) : date? input = none := by
  have noDate : calendarDate? input = none := by
    rw [← Option.not_isSome_iff_eq_none]
    exact fun h => other (beginsDate_of_calendarDate? h)
  have noTime : time? input = none := by
    rw [← Option.not_isSome_iff_eq_none]
    exact fun h => other (beginsDate_of_time? h)
  rw [date?, noDate, noTime]
  rfl

/-- Digits before anything else are no beginning of a date. -/
theorem not_beginsDate (digits : ∀ d ∈ ds, d.isDigit = true) (other : c.isDigit = false)
    (noDash : ds ≠ [] → c ≠ '-') (noColon : c ≠ ':') : ¬ BeginsDate (ds ++ c :: rest) := by
  rintro ⟨es, e, rest', same, digits', some, separates⟩
  have other' : e.isDigit = false := by rcases separates with rfl | rfl <;> rfl
  have whole : ∀ {l t : List Char} {x : Char}, (∀ d ∈ l, d.isDigit = true) → x.isDigit = false →
      (l ++ x :: t).takeWhile Char.isDigit = l ∧ (l ++ x :: t).dropWhile Char.isDigit = x :: t := by
    intro l t x hl hx
    rw [List.takeWhile_append_of_pos hl, List.dropWhile_append_of_pos hl]
    simp [hx]
  obtain ⟨heads, tails⟩ := whole (t := rest) digits other
  obtain ⟨heads', tails'⟩ := whole (t := rest') digits' other'
  rw [same] at heads tails
  obtain rfl : es = ds := heads'.symm.trans heads
  obtain rfl : e = c := (List.cons.inj (tails'.symm.trans tails)).1
  rcases separates with dash | colon
  · exact noDash some dash
  · exact noColon colon

/-! ## Integers -/

/-- A digit comes first. -/
theorem exists_decimal_append (n : Nat) (input : List Char) :
    ∃ d ds, decimal n ++ input = d :: ds ∧ d.isDigit = true := by
  cases layout : decimal n with
  | nil => exact absurd layout Nat.toDigits_ne_nil
  | cons d ds => exact ⟨d, ds ++ input, rfl, isDigit_of_mem_decimal (n := n) (by simp [layout])⟩

/-- After a zero at the beginning, the line ends. -/
theorem eq_of_decimal_append {x : Char} {t : List Char}
    (h : decimal n ++ '\n' :: rest = '0' :: x :: t) : x = '\n' := by
  rcases Nat.eq_zero_or_pos n with rfl | positive
  · exact (List.cons.inj (List.cons.inj h).2).1.symm
  · have first := head?_decimal positive
    cases layout : decimal n with
    | nil => exact absurd layout Nat.toDigits_ne_nil
    | cons d ds =>
      rw [layout] at h first
      exact absurd (congrArg some (List.cons.inj h).1) first

/-- The sign of a written integer. -/
theorem sign_signed (n : Int) :
    sign (signed n ++ rest) = (decide (n < 0), decimal n.natAbs ++ rest) := by
  rw [signed]
  split
  · rename_i negative
    simp [sign, negative]
  · rename_i positive
    obtain ⟨d, ds, layout, digit⟩ := exists_decimal_append n.natAbs rest
    rw [layout, sign]
    · simp [positive]
    · rintro _ ⟨⟩
      contradiction
    · rintro _ ⟨⟩
      contradiction

/-- An integer is no date. -/
theorem date?_signed (n : Int) : date? (signed n ++ '\n' :: rest) = none := by
  refine date?_eq_none ?_
  rw [signed]
  split
  · have dash : ¬ BeginsDate ([] ++ '-' :: (decimal n.natAbs ++ '\n' :: rest)) :=
      not_beginsDate (List.forall_mem_nil _) rfl (fun some => absurd rfl some) (by decide)
    exact dash
  · exact not_beginsDate (fun d => isDigit_of_mem_decimal) rfl (fun _ => by decide) (by decide)

/-- An integer is no float. -/
theorem float?_signed (n : Int) : float? (signed n ++ '\n' :: rest) = none := by
  have whole : whole? (decimal n.natAbs ++ '\n' :: rest) = some (decimal n.natAbs, '\n' :: rest) :=
    whole?_decimal rfl (by decide)
  obtain ⟨d, ds, layout, digit⟩ := exists_decimal_append n.natAbs ('\n' :: rest)
  rw [float?, sign_signed]
  simp only
  split
  · rename_i same
    exact absurd (List.cons.inj (layout.symm.trans same)).1 (ne_of_test digit rfl)
  · rename_i same
    exact absurd (List.cons.inj (layout.symm.trans same)).1 (ne_of_test digit rfl)
  · rw [whole]
    rfl

/-- **An integer of 64 bits** is read as it was written. -/
theorem integer?_signed {n : Int} (low : -Int.pow 2 63 ≤ n) (high : n < Int.pow 2 63) :
    integer? (signed n ++ '\n' :: rest) = some (.integer n, '\n' :: rest) := by
  have whole : whole? (decimal n.natAbs ++ '\n' :: rest) = some (decimal n.natAbs, '\n' :: rest) :=
    whole?_decimal rfl (by decide)
  have value : Nat.ofDigitChars 10 (decimal n.natAbs) 0 = n.natAbs := Nat.ofDigitChars_ten_toDigits
  have read : ofDigits? 10 (decide (n < 0)) (decimal n.natAbs) = some (.integer n) := by
    have bound : (Nat.pow 2 63 : Int) = Int.pow 2 63 := rfl
    rw [ofDigits?_eq fun d => isDigit_of_mem_decimal, value]
    simp only [decide_eq_true_eq]
    split
    · rw [if_pos (by omega), Int.ofNat_natAbs_of_nonpos (by omega), Int.neg_neg]
    · rw [if_pos (by omega), Int.natAbs_of_nonneg (by omega)]
  have base : ∀ x t, signed n ++ '\n' :: rest = '0' :: x :: t → x = '\n' := by
    intro x t same
    rw [signed] at same
    split at same
    · exact absurd (List.cons.inj same).1 (by decide)
    · exact eq_of_decimal_append same
  rw [integer?, sign_signed]
  · simp only
    rw [whole]
    simp [read]
  · exact fun _ same => absurd (base _ _ same) (by decide)
  · exact fun _ same => absurd (base _ _ same) (by decide)
  · exact fun _ same => absurd (base _ _ same) (by decide)

/-! ## Values -/

namespace Scalar

/-- What is read of a value. -/
def item : Scalar → Item
  | string s => .string s
  | integer n => .integer n
  | boolean b => .boolean b

/-- The value can be read: an integer has 64 bits. -/
def Fits : Scalar → Prop
  | integer n => -Int.pow 2 63 ≤ n ∧ n < Int.pow 2 63
  | _ => True

end Scalar

/-- The quotes that a written text begins with. -/
theorem exists_stringText (s : List Char) :
    ∃ t, stringText s = '"' :: t ∨ stringText s = '\'' :: t := by
  rw [stringText]
  cases style s with
  | quoted => exact ⟨_, .inl rfl⟩
  | verbatim => exact ⟨_, .inr rfl⟩
  | quotedLines => exact ⟨_, .inl rfl⟩
  | verbatimLines => exact ⟨_, .inr rfl⟩

/-- An integer begins with a digit or a dash. -/
theorem exists_signed_append (n : Int) (input : List Char) :
    ∃ d ds, signed n ++ input = d :: ds ∧ (d.isDigit = true ∨ d = '-') := by
  rw [signed]
  split
  · exact ⟨_, _, rfl, .inr rfl⟩
  · obtain ⟨d, ds, layout, digit⟩ := exists_decimal_append n.natAbs input
    exact ⟨d, ds, layout, .inl digit⟩

/-- **A value is read as it was written**, up to the end of its line. -/
theorem scalar?_text {v : Scalar} (fits : v.Fits) :
    scalar? (v.text ++ '\n' :: rest) = some (v.item, '\n' :: rest) := by
  cases v with
  | boolean b => cases b <;> rfl
  | string s =>
    have reads : string? (stringText s.toList ++ '\n' :: rest) = some (s.toList, '\n' :: rest) :=
      string?_stringText nofun nofun
    rw [Scalar.text]
    obtain ⟨t, double | single⟩ := exists_stringText s.toList
    · rw [double, List.cons_append] at reads ⊢
      rw [scalar?, reads]
      simp [Scalar.item]
    · rw [single, List.cons_append] at reads ⊢
      rw [scalar?, reads]
      simp [Scalar.item]
  | integer n =>
    obtain ⟨low, high⟩ := fits
    obtain ⟨d, ds, layout, head⟩ := exists_signed_append n ('\n' :: rest)
    have other : ∀ c t, c.isDigit = false → c ≠ '-' → signed n ++ '\n' :: rest ≠ c :: t := by
      rintro c t noDigit noDash same
      obtain rfl : d = c := (List.cons.inj (layout.symm.trans same)).1
      rcases head with digit | dash
      · exact ne_of_test digit noDigit rfl
      · exact noDash dash
    rw [Scalar.text, scalar?, date?_signed, float?_signed, integer?_signed low high]
    · rfl
    · exact fun t => other '"' t rfl (by decide)
    · exact fun t => other '\'' t rfl (by decide)
    · exact fun t => other 't' t rfl (by decide)
    · exact fun t => other 'f' t rfl (by decide)

/-- The first character of a written value is no blank and opens neither an array nor a table. -/
theorem Scalar.exists_text (v : Scalar) :
    ∃ c t, v.text = c :: t ∧ isBlank c = false ∧ c ≠ '[' ∧ c ≠ '\x7b' := by
  cases v with
  | boolean b => cases b <;> exact ⟨_, _, rfl, by decide⟩
  | string s =>
    obtain ⟨t, double | single⟩ := exists_stringText s.toList
    · exact ⟨_, t, double, by decide⟩
    · exact ⟨_, t, single, by decide⟩
  | integer n =>
    obtain ⟨d, ds, layout, head⟩ := exists_signed_append n []
    rw [List.append_nil] at layout
    refine ⟨d, ds, layout, ?_⟩
    rcases head with digit | rfl
    · have noBlank : isBlank d = false := by
        simp [isBlank, ne_of_test digit (d := ' ') rfl, ne_of_test digit (d := '\t') rfl]
      exact ⟨noBlank, ne_of_test digit rfl, ne_of_test digit rfl⟩
    · decide

/-- The same, where arrays and tables could stand, after a blank. -/
theorem value?_text {v : Scalar} {depth : Nat} (fits : v.Fits) :
    value? depth (skipBlanks (' ' :: (v.text ++ '\n' :: rest))) = some (v.item, '\n' :: rest) := by
  obtain ⟨c, t, layout, noBlank, noArray, noTable⟩ := v.exists_text
  have reads : scalar? (v.text ++ '\n' :: rest) = some (v.item, '\n' :: rest) := scalar?_text fits
  have skipped : skipBlanks (' ' :: (v.text ++ '\n' :: rest)) = v.text ++ '\n' :: rest := by
    rw [layout, List.cons_append, skipBlanks, List.dropWhile_cons_of_pos rfl,
      List.dropWhile_cons_of_neg (by simpa using noBlank)]
  rw [skipped]
  cases depth with
  | zero => exact reads
  | succ depth =>
    rw [layout] at reads ⊢
    rw [List.cons_append, value?]
    · exact reads
    · exact fun _ same => noArray (List.cons.inj same).1
    · exact fun _ same => noTable (List.cons.inj same).1

end LeasePool.Toml
