import LeasePool.Json.Printer
import LeasePool.Json.Reader
import LeasePool.Proofs.Text.Digits

/-!
# Numbers and their text

A number ends where something follows that is no part of one, and what follows is left alone. So it
is enough to know what the reader makes of the text of a number by itself. An integer of 64 bits is
read back; of the doubles only those are for which the arithmetic of the reader happens to be exact.
-/

namespace LeasePool.Json

variable {s rest t : Input} {negative : Bool} {ds : List Char} {c : Char}

/-! ## What follows a number -/

/-- The input does not go on with a number that ends before it. -/
def EndsNumber : Input → Prop
  | some c :: _ => c.isDigit = false ∧ c ≠ '.' ∧ c ≠ 'e' ∧ c ≠ 'E'
  | _ => True

theorem spanDigits_append (ends : EndsNumber rest) :
    spanDigits (s ++ rest) = ((spanDigits s).1, (spanDigits s).2 ++ rest) := by
  induction s with
  | nil =>
    match rest, ends with
    | [], _ | none :: _, _ => rfl
    | some c :: rest, ends => simp [spanDigits, ends.1]
  | cons u s ih =>
    cases u with
    | none => rfl
    | some c =>
      rw [List.cons_append, spanDigits, spanDigits, ih]
      split <;> rfl

theorem digits?_append (ends : EndsNumber rest) (h : digits? s = some (ds, t)) :
    digits? (s ++ rest) = some (ds, t ++ rest) := by
  unfold digits? at h ⊢
  rw [spanDigits_append ends]
  match digits : spanDigits s with
  | ([], _) => simp [digits] at h
  | (d :: es, u) =>
    rw [digits] at h
    obtain ⟨rfl, rfl⟩ := Prod.mk.inj (Option.some.inj h)
    rfl

theorem wholePart_append (ends : EndsNumber rest) (h : wholePart s = some (ds, t)) :
    wholePart (s ++ rest) = some (ds, t ++ rest) := by
  unfold wholePart at h
  split at h
  · obtain ⟨rfl, rfl⟩ := Prod.mk.inj (Option.some.inj h)
    rfl
  · rename_i other
    rw [wholePart]
    · exact digits?_append ends h
    · cases s with
      | nil => contradiction
      | cons u s => exact fun t same => other s (by rw [(List.cons.inj same).1])

theorem fractionPart_append {fraction : Option (List Char)} (ends : EndsNumber rest)
    (h : fractionPart s = some (fraction, t)) :
    fractionPart (s ++ rest) = some (fraction, t ++ rest) := by
  unfold fractionPart at h
  split at h
  · obtain ⟨⟨ds, u⟩, digits, same⟩ := Option.map_eq_some_iff.1 h
    obtain ⟨rfl, rfl⟩ := Prod.mk.inj same
    rw [List.cons_append, fractionPart, digits?_append ends digits]
    rfl
  · rename_i other
    obtain ⟨rfl, rfl⟩ := Prod.mk.inj (Option.some.inj h)
    rw [fractionPart]
    intro t same
    cases s with
    | nil =>
      rw [List.nil_append] at same
      rw [same] at ends
      exact ends.2.1 rfl
    | cons u s => exact other s (by rw [(List.cons.inj same).1])

theorem exponentSign_append (some : s ≠ []) :
    exponentSign (s ++ rest) = ((exponentSign s).1, (exponentSign s).2 ++ rest) := by
  cases s with
  | nil => contradiction
  | cons u s =>
    rw [List.cons_append]
    unfold exponentSign
    split <;> simp_all

theorem exponentPart_append {exponent : Option Int} (ends : EndsNumber rest)
    (h : exponentPart s = some (exponent, t)) :
    exponentPart (s ++ rest) = some (exponent, t ++ rest) := by
  match s with
  | [] =>
    obtain ⟨rfl, rfl⟩ := Prod.mk.inj (Option.some.inj h)
    match rest, ends with
    | [], _ | none :: _, _ => rfl
    | some c :: rest, ends => simp [exponentPart, ends.2.2]
  | none :: s =>
    obtain ⟨rfl, rfl⟩ := Prod.mk.inj (Option.some.inj h)
    rfl
  | some c :: s =>
    rw [exponentPart] at h
    rw [List.cons_append, exponentPart]
    split
    · rename_i mark
      rw [if_pos mark] at h
      have more : s ≠ [] := by
        rintro rfl
        contradiction
      rw [exponentSign_append more]
      generalize exponentSign s = signed at h ⊢
      obtain ⟨⟨ds, u⟩, digits, same⟩ := Option.map_eq_some_iff.1 h
      obtain ⟨rfl, rfl⟩ := Prod.mk.inj same
      simp only
      rw [digits?_append ends digits]
      rfl
    · rename_i mark
      rw [if_neg mark] at h
      obtain ⟨rfl, rfl⟩ := Prod.mk.inj (Option.some.inj h)
      rfl

theorem unsignedNumber_append {x : Json} (ends : EndsNumber rest)
    (h : unsignedNumber negative s = some (x, t)) :
    unsignedNumber negative (s ++ rest) = some (x, t ++ rest) := by
  rw [unsignedNumber] at h ⊢
  simp only [Option.bind_eq_bind, Option.bind_eq_some_iff, Prod.exists] at h ⊢
  obtain ⟨whole, u, digits, fraction, v, fractional, exponent, w, exponential, h⟩ := h
  refine ⟨whole, u ++ rest, wholePart_append ends digits, fraction, v ++ rest,
    fractionPart_append ends fractional, exponent, w ++ rest,
    exponentPart_append ends exponential, ?_⟩
  split at h <;> simp_all

/-! ## Numbers -/

/-- The reader takes the text of the number for the number. -/
def Number.IsReadable (n : Number) : Prop :=
  readValue 1 ((numberText n).map some) = some (.number n, [])

instance (n : Number) : Decidable n.IsReadable :=
  inferInstanceAs (Decidable (readValue 1 ((numberText n).map some) = some (.number n, [])))

/-- The characters of numbers. -/
def isNumberChar (c : Char) : Bool :=
  c.isDigit || c = '-' || c = '.' || c = 'e'

theorem isNumberChar_of_mem_decimal {n : Nat} (hc : c ∈ Text.decimal n) :
    isNumberChar c = true := by
  rw [isNumberChar, Text.isDigit_of_mem_decimal hc]
  rfl

theorem isNumberChar_of_mem_signed {n : Int} (hc : c ∈ Text.signed n) :
    isNumberChar c = true := by
  rw [Text.signed] at hc
  split at hc
  · rcases List.mem_cons.1 hc with rfl | mem
    · rfl
    · exact isNumberChar_of_mem_decimal mem
  · exact isNumberChar_of_mem_decimal hc

theorem isNumberChar_of_mem_layout {digits : List Char} {point : Int}
    (H : ∀ c ∈ digits, isNumberChar c = true) (hc : c ∈ Text.layout digits point) :
    isNumberChar c = true := by
  have zeros : ∀ n, c ∈ List.replicate n '0' → isNumberChar c = true := fun n mem => by
    rw [List.eq_of_mem_replicate mem]
    rfl
  have part : ∀ n, c ∈ digits.drop n → isNumberChar c = true := fun n mem =>
    H c (List.mem_of_mem_drop mem)
  have front : ∀ n, c ∈ digits.take n → isNumberChar c = true := fun n mem =>
    H c (List.mem_of_mem_take mem)
  rw [Text.layout] at hc
  split at hc
  · simp only [List.mem_append, List.mem_cons, List.not_mem_nil, or_false] at hc
    rcases hc with (mem | mem) | rfl | rfl
    · exact H c mem
    · exact zeros _ mem
    · rfl
    · rfl
  split at hc
  · simp only [List.mem_append, List.mem_cons] at hc
    rcases hc with mem | rfl | mem
    · exact front _ mem
    · rfl
    · exact part _ mem
  split at hc
  · simp only [List.mem_append, List.mem_cons] at hc
    rcases hc with (rfl | rfl | mem) | mem
    · rfl
    · rfl
    · exact zeros _ mem
    · exact H c mem
  · simp only [List.mem_append, List.mem_cons] at hc
    rcases hc with (mem | mem) | rfl | mem
    · exact front _ mem
    · split at mem
      · contradiction
      · rcases List.mem_cons.1 mem with rfl | mem
        · rfl
        · exact part _ mem
    · rfl
    · exact isNumberChar_of_mem_signed mem

theorem isNumberChar_of_mem_double {f : Float} (hc : c ∈ Text.double f) :
    isNumberChar c = true := by
  rw [Text.double] at hc
  rcases List.mem_append.1 hc with sign | mem
  · split at sign
    · contradiction
    · rw [List.mem_singleton.1 sign]
      rfl
  split at mem
  · simp only [List.mem_cons, List.not_mem_nil, or_false] at mem
    rcases mem with rfl | rfl | rfl <;> rfl
  · refine isNumberChar_of_mem_layout (fun c mem => ?_) mem
    have digit := (List.dropWhile_sublist _).subset (List.mem_reverse.1 mem)
    exact isNumberChar_of_mem_decimal (List.mem_reverse.1 digit)

theorem isNumberChar_of_mem_numberText {n : Number} (hc : c ∈ numberText n) :
    isNumberChar c = true := by
  cases n with
  | integer => exact isNumberChar_of_mem_signed hc
  | double => exact isNumberChar_of_mem_double hc

/-- A number is looked for where a character of one is. -/
theorem readValue_of_isNumberChar (h : isNumberChar c = true) (fuel : Nat) :
    readValue (fuel + 1) (some c :: s) =
      if c = '-' then unsignedNumber true s else unsignedNumber false (some c :: s) := by
  have bare : skipBlanks (some c :: s) = some c :: s := by
    rw [skipBlanks, if_neg]
    rintro (rfl | rfl | rfl | rfl) <;> contradiction
  have other : ∀ {d : Char} {t : Input}, isNumberChar d = false → some c :: s ≠ some d :: t := by
    rintro d t bar ⟨⟩
    exact absurd h (Bool.eq_false_iff.1 bar)
  rw [readValue, bare]
  split
  case h_1 same | h_2 same | h_3 same | h_5 same | h_6 same | h_7 same =>
    exact absurd same (other rfl)
  case h_4 same =>
    obtain ⟨first, rfl⟩ := List.cons.inj same
    rw [if_pos (Option.some.inj first)]
  case h_8 noSign _ _ _ =>
    rw [if_neg]
    rintro rfl
    exact noSign s rfl

/-- **A number is read from its text**, whatever follows, if the reader takes the text for it. -/
theorem readValue_numberText {n : Number} (h : n.IsReadable) (ends : EndsNumber rest)
    (fuel : Nat) :
    readValue (fuel + 1) ((numberText n).map some ++ rest) = some (.number n, rest) := by
  rw [Number.IsReadable] at h
  cases layout : numberText n with
  | nil =>
    rw [layout] at h
    contradiction
  | cons c cs =>
    have first : isNumberChar c = true := isNumberChar_of_mem_numberText (n := n) (by simp [layout])
    rw [layout, List.map_cons, readValue_of_isNumberChar first] at h
    rw [List.map_cons, List.cons_append, readValue_of_isNumberChar first]
    split at h
    · rename_i minus
      rw [if_pos minus, unsignedNumber_append ends h, List.nil_append]
    · rename_i digit
      rw [if_neg digit, ← List.cons_append, unsignedNumber_append ends h, List.nil_append]

/-! ## Integers -/

theorem spanDigits_digits (digits : ∀ d ∈ ds, d.isDigit = true) :
    spanDigits (ds.map some) = (ds, []) := by
  induction ds with
  | nil => rfl
  | cons d ds ih =>
    obtain ⟨here, later⟩ := List.forall_mem_cons.1 digits
    rw [List.map_cons, spanDigits, if_pos here, ih later]

/-- The digits of a number are a whole part. -/
theorem wholePart_decimal (n : Nat) :
    wholePart ((Text.decimal n).map some) = some (Text.decimal n, []) := by
  have digits : digits? ((Text.decimal n).map some) = some (Text.decimal n, []) := by
    rw [digits?, spanDigits_digits fun d => Text.isDigit_of_mem_decimal]
    cases layout : Text.decimal n with
    | nil => exact absurd layout Nat.toDigits_ne_nil
    | cons d ds => rfl
  rcases Nat.eq_zero_or_pos n with rfl | positive
  · rfl
  · rw [wholePart]
    · exact digits
    · intro t same
      have first := Text.head?_decimal positive
      have head := congrArg List.head? same
      rw [List.head?_map] at head
      cases found : (Text.decimal n).head? with
      | none => simp [found] at head
      | some d =>
        rw [found] at head first
        exact first (Option.some.inj head)

/-- Digits that fit are gathered to the number that they denote. -/
theorem gather_of_lt {n : Nat} (fits : Nat.ofDigitChars 10 ds n < Nat.pow 2 64) :
    Text.gather n ds = (Nat.ofDigitChars 10 ds n, []) := by
  induction ds generalizing n with
  | nil => rfl
  | cons d ds ih =>
    rw [Nat.ofDigitChars_cons] at fits ⊢
    have small : 10 * n + (d.toNat - '0'.toNat) < Nat.pow 2 64 := by
      refine Nat.lt_of_le_of_lt ?_ fits
      rw [Nat.ofDigitChars_eq_ofDigitChars_zero]
      exact Nat.le_add_right_of_le (Nat.le_mul_of_pos_left _ (Nat.pow_pos (by decide)))
    rw [Text.gather, if_pos small, ih fits]

theorem ofWhole_decimal {n : Nat} (fits : n < Nat.pow 2 64) :
    ofWhole negative (Text.decimal n) =
      if negative then
        if n ≠ 0 ∧ n ≤ Nat.pow 2 63 then .number (.integer (-(n : Int))) else ofParts true n 0
      else .number (.integer n) := by
  have value : Nat.ofDigitChars 10 (Text.decimal n) 0 = n := Nat.ofDigitChars_ten_toDigits
  have gathered : Text.gather 0 (Text.decimal n) = (n, []) := by
    rw [gather_of_lt (by rwa [value]), value]
  rw [ofWhole, gathered]

theorem unsignedNumber_decimal (negative : Bool) (n : Nat) :
    unsignedNumber negative ((Text.decimal n).map some) =
      some (ofWhole negative (Text.decimal n), []) := by
  rw [unsignedNumber, wholePart_decimal]
  rfl

/-- **Integers of 64 bits** are read from their text. -/
theorem isReadable_integer {n : Int} (low : -Int.pow 2 63 ≤ n) (high : n < Int.pow 2 64) :
    (Number.integer n).IsReadable := by
  have bounds : (Nat.pow 2 63 : Int) = Int.pow 2 63 ∧ (Nat.pow 2 64 : Int) = Int.pow 2 64 :=
    ⟨rfl, rfl⟩
  have less : Nat.pow 2 63 < Nat.pow 2 64 := by decide
  have fits : n.natAbs < Nat.pow 2 64 := by omega
  rw [Number.IsReadable, numberText, Text.signed]
  split
  · rename_i negative
    have small : n.natAbs ≠ 0 ∧ n.natAbs ≤ Nat.pow 2 63 := by omega
    rw [List.map_cons, readValue_of_isNumberChar rfl, if_pos rfl, unsignedNumber_decimal,
      ofWhole_decimal fits, if_pos rfl, if_pos small, Int.ofNat_natAbs_of_nonpos (by omega),
      Int.neg_neg]
  · rename_i positive
    have read := unsignedNumber_decimal false n.natAbs
    cases layout : Text.decimal n.natAbs with
    | nil => exact absurd layout Nat.toDigits_ne_nil
    | cons d ds =>
      have digit : d.isDigit = true :=
        Text.isDigit_of_mem_decimal (n := n.natAbs) (by simp [layout])
      have noSign : d ≠ '-' := by
        rintro rfl
        contradiction
      have char : isNumberChar d = true := by
        rw [isNumberChar, digit]
        rfl
      rw [layout, List.map_cons] at read
      rw [List.map_cons, readValue_of_isNumberChar char, if_neg noSign, read,
        ← layout, ofWhole_decimal fits, if_neg Bool.false_ne_true, Int.natAbs_of_nonneg (by omega)]

end LeasePool.Json
