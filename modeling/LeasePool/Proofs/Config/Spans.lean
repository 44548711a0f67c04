import LeasePool.Config.Schedule
import LeasePool.Proofs.Text.Blanks
import Mathlib.Algebra.Group.Nat.Defs
import Mathlib.Data.List.Induction

/-!
# Which texts are spans

The grammar of spans, stated without reading: a number, then a unit or nothing, in letters of
either case, with any blanks before, between and after. A span is read off a text exactly if the
text is of this form and the product is at least one and fits into 64 bits; every other text is
refused, and the report says what is wrong with it.

The unit is looked for from the end, so a text has one reading at most: a number ends with a digit,
and no digit is the letter of a unit.
-/

namespace LeasePool

namespace Text

/-! ## Letters of either case -/

/-- Letters of either case are no blanks. -/
theorem isBlank_toLower (c : Char) : isBlank c.toLower = isBlank c := by
  by_cases upper : c.val ≥ 'A'.val ∧ c.val ≤ 'Z'.val
  · have range : 65 ≤ c.toNat ∧ c.toNat ≤ 90 := upper
    have lower : c.toLower.toNat = c.toNat + 32 := by
      have shifted : c.toLower = _ := dif_pos upper
      rw [shifted]
      change (c.toNat + 32) % 2 ^ 32 = c.toNat + 32
      omega
    simp only [isBlank, lower]
    grind
  · have same : c.toLower = c := dif_neg upper
    rw [same]

theorem trimChars_map_toLower (s : List Char) :
    trimChars (s.map Char.toLower) = (trimChars s).map Char.toLower := by
  have same : isBlank ∘ Char.toLower = isBlank := funext isBlank_toLower
  simp only [trimChars, List.dropWhile_map, ← List.map_reverse, same]

/-! ## Numbers -/

/-- Digits denote a number in the base ten. -/
inductive Denotes : List Char → Nat → Prop
  | digit {c : Char} (h : c.isDigit = true) : Denotes [c] (c.toNat - 48)
  | snoc {s : List Char} {n : Nat} {c : Char} (before : Denotes s n) (h : c.isDigit = true) :
    Denotes (s ++ [c]) (10 * n + (c.toNat - 48))

/-- A number: digits, with or without a plus sign before them. -/
inductive IsNumber : List Char → Nat → Prop
  | plain {s : List Char} {n : Nat} (h : Denotes s n) : IsNumber s n
  | plus {s : List Char} {n : Nat} (h : Denotes s n) : IsNumber ('+' :: s) n

theorem digits?_eq_some_iff {s : List Char} {n : Nat} : digits? s = some n ↔ Denotes s n := by
  constructor
  · induction s using List.reverseRecOn generalizing n with
    | nil => simp [digits?]
    | append_singleton s c ih =>
      intro h
      simp only [digits?, Option.ite_none_right_eq_some, List.all_append, Bool.and_eq_true,
        List.all_cons, List.all_nil, Bool.and_true, Nat.ofDigitChars_append] at h
      obtain ⟨⟨-, before, digit⟩, value⟩ := h
      obtain rfl := Option.some.inj value
      by_cases empty : s = []
      · subst empty
        simpa [Nat.ofDigitChars] using Denotes.digit digit
      · have here : digits? s = some (Nat.ofDigitChars 10 s 0) := by
          rw [digits?, if_pos ⟨empty, before⟩]
        exact .snoc (ih here) digit
  · intro h
    induction h with
    | digit h => simp [digits?, h, Nat.ofDigitChars]
    | snoc before h ih =>
      simp only [digits?, Option.ite_none_right_eq_some] at ih
      obtain ⟨⟨-, all⟩, value⟩ := ih
      obtain rfl := Option.some.inj value
      rw [digits?, if_pos (by simp [all, h]), Nat.ofDigitChars_append]
      rfl

theorem digits?_dropPlus_eq_some_iff {s : List Char} {n : Nat} :
    digits? (dropPlus s) = some n ↔ IsNumber s n := by
  constructor
  · intro h
    cases s with
    | nil => exact .plain (digits?_eq_some_iff.1 h)
    | cons c t =>
      by_cases sign : c = '+'
      · subst sign
        exact .plus (digits?_eq_some_iff.1 h)
      · have same : dropPlus (c :: t) = c :: t := by
          rw [dropPlus]
          rintro _ ⟨⟩
          exact sign rfl
        rw [same] at h
        exact .plain (digits?_eq_some_iff.1 h)
  · intro h
    cases h with
    | plus h => exact digits?_eq_some_iff.2 h
    | plain h =>
      have read := digits?_eq_some_iff.2 h
      rw [dropPlus]
      · exact read
      · -- A sign is no digit.
        rintro t rfl
        simp [digits?] at read

/-- A number is read as what it denotes, if that is below the bound. -/
theorem natural?_eq_some_iff {bound n : Nat} {s : List Char} :
    natural? bound s = some n ↔ IsNumber s n ∧ n < bound := by
  simp [natural?, Option.filter_eq_some_iff, digits?_dropPlus_eq_some_iff]

theorem Denotes.getLast? {s : List Char} {n : Nat} (h : Denotes s n) :
    ∃ c, s.getLast? = some c ∧ c.isDigit = true := by
  cases h with
  | digit h => exact ⟨_, rfl, h⟩
  | snoc before h => exact ⟨_, List.getLast?_concat, h⟩

theorem Denotes.head? {s : List Char} {n : Nat} (h : Denotes s n) :
    ∃ c, s.head? = some c ∧ c.isDigit = true := by
  induction h with
  | digit h => exact ⟨_, rfl, h⟩
  | snoc before h ih =>
    obtain ⟨c, first, digit⟩ := ih
    exact ⟨c, by rw [List.head?_append, first, Option.some_or], digit⟩

/-- A number ends with a digit. -/
theorem IsNumber.getLast? {s : List Char} {n : Nat} (h : IsNumber s n) :
    ∃ c, s.getLast? = some c ∧ c.isDigit = true := by
  cases h with
  | plain h => exact h.getLast?
  | plus h =>
    obtain ⟨c, last, digit⟩ := h.getLast?
    exact ⟨c, by rw [List.getLast?_cons, last, Option.getD_some], digit⟩

theorem IsNumber.hasBareEnds {s : List Char} {n : Nat} (h : IsNumber s n) : HasBareEnds s := by
  constructor
  · intro c first
    cases h with
    | plus h =>
      obtain rfl := Option.some.inj first
      rfl
    | plain h =>
      obtain ⟨d, here, digit⟩ := h.head?
      obtain rfl := Option.some.inj (here.symm.trans first)
      exact isBlank_of_isDigit digit
  · intro c last
    obtain ⟨d, here, digit⟩ := h.getLast?
    obtain rfl := Option.some.inj (here.symm.trans last)
    exact isBlank_of_isDigit digit

end Text

/-! ## Units -/

/-- The name of a unit. -/
def SpanUnit.name : SpanUnit → List Char
  | .milliseconds => ['m', 's']
  | .seconds => ['s']
  | .minutes => ['m']
  | .hours => ['h']

/-- What says of a number that it is of a unit: the name of the unit, or nothing for seconds. -/
inductive SpanUnit.IsNamed : SpanUnit → List Char → Prop
  | name (unit : SpanUnit) : unit.IsNamed unit.name
  | nothing : SpanUnit.seconds.IsNamed []

namespace SpanUnit

theorem pos_millis (unit : SpanUnit) : 0 < unit.millis := by
  cases unit <;> decide

/-- A text is split into what stands before the name of its unit, and that name. -/
theorem exists_name_of_splitUnit (s : List Char) :
    ∃ name, (splitUnit s).2.IsNamed name ∧ s = (splitUnit s).1 ++ name := by
  have back : s = s.reverse.reverse := s.reverse_reverse.symm
  rw [splitUnit]
  split
  · rename_i rest same
    exact ⟨_, .name .milliseconds, by rw [back, same]; simp [SpanUnit.name]⟩
  · rename_i rest _ same
    exact ⟨_, .name .seconds, by rw [back, same]; simp [SpanUnit.name]⟩
  · rename_i rest same
    exact ⟨_, .name .minutes, by rw [back, same]; simp [SpanUnit.name]⟩
  · rename_i rest same
    exact ⟨_, .name .hours, by rw [back, same]; simp [SpanUnit.name]⟩
  · exact ⟨_, .nothing, (List.append_nil s).symm⟩

/-- The letters of names. -/
def letters : List Char := ['m', 's', 'h']

/-- A letter of a name is neither a digit nor a blank. -/
theorem of_mem_letters {c : Char} (letter : c ∈ letters) :
    c.isDigit = false ∧ Text.isBlank c = false := by
  simp only [letters, List.mem_cons, List.not_mem_nil, or_false] at letter
  rcases letter with rfl | rfl | rfl <;> exact ⟨rfl, rfl⟩

/-- The name is found behind anything that does not end with a letter of a name. -/
theorem splitUnit_append {unit : SpanUnit} {body name : List Char} {c : Char}
    (named : unit.IsNamed name) (last : body.getLast? = some c) (other : c ∉ letters) :
    splitUnit (body ++ name) = (body, unit) := by
  obtain ⟨rest, rfl⟩ : ∃ rest, body = rest ++ [c] := List.getLast?_eq_some_iff.1 last
  obtain ⟨noM, noS, noH⟩ : c ≠ 'm' ∧ c ≠ 's' ∧ c ≠ 'h' := by simpa [letters] using other
  cases named with
  | nothing => simp [splitUnit, noM, noS, noH]
  | name unit => cases unit <;> simp [splitUnit, SpanUnit.name, noM]

end SpanUnit

/-! ## Spans -/

open Text

/-- A text that says an amount of a unit: a number and the name of the unit, with blanks before,
between and after, in letters of either case. -/
def Expresses (text : String) (n : Nat) (unit : SpanUnit) : Prop :=
  ∃ before number between name after,
    text.toList.map Char.toLower = before ++ number ++ between ++ name ++ after ∧
      Blanks before ∧ IsNumber number n ∧ Blanks between ∧ unit.IsNamed name ∧ Blanks after

/-- The letters of a text between the blanks at its ends, in lower case. -/
theorem toList_trim_map_toLower (text : String) :
    (trim text).toList.map Char.toLower = trimChars (text.toList.map Char.toLower) := by
  rw [trim, String.toList_ofList, trimChars_map_toLower]

/-- A number and blanks do not end with a letter of a unit. -/
theorem exists_last {number between : List Char} {n : Nat} (isNumber : IsNumber number n)
    (blanks : Blanks between) :
    ∃ c, (number ++ between).getLast? = some c ∧ c ∉ SpanUnit.letters := by
  by_cases empty : between = []
  · subst empty
    obtain ⟨c, last, digit⟩ := isNumber.getLast?
    refine ⟨c, by rw [List.append_nil, last], ?_⟩
    intro letter
    rw [(SpanUnit.of_mem_letters letter).1] at digit
    contradiction
  · obtain ⟨c, last⟩ := Option.ne_none_iff_exists'.1 (mt List.getLast?_eq_none_iff.1 empty)
    refine ⟨c, by rw [List.getLast?_append, last, Option.some_or], ?_⟩
    intro letter
    have blank := blanks c (List.mem_of_getLast? last)
    rw [(SpanUnit.of_mem_letters letter).2] at blank
    contradiction

/-- **A text says an amount of a unit** exactly if that is what its parts say. -/
theorem expresses_iff {text : String} {n : Nat} {unit : SpanUnit} :
    Expresses text n unit ↔
      ∃ number, splitUnit ((trim text).toList.map Char.toLower) = (number, unit) ∧
        IsNumber (trimChars number) n := by
  rw [toList_trim_map_toLower]
  constructor
  · rintro ⟨before, number, between, name, after, layout, hb, isNumber, blanks, named, ha⟩
    have bare := isNumber.hasBareEnds
    cases named with
    | nothing =>
      -- What is between the number and the end is cut off with the end.
      have core : trimChars (text.toList.map Char.toLower) = number := by
        rw [layout, List.append_nil, List.append_assoc _ between]
        exact trimChars_append hb (blanks_append.2 ⟨blanks, ha⟩) bare
      obtain ⟨c, last, other⟩ := exists_last isNumber blanks_nil
      rw [List.append_nil] at last
      have split := SpanUnit.splitUnit_append .nothing last other
      rw [List.append_nil] at split
      refine ⟨number, by rw [core, split], ?_⟩
      have same := trimChars_append blanks_nil blanks_nil bare
      rw [List.nil_append, List.append_nil] at same
      rwa [same]
    | name unit =>
      obtain ⟨c, last, other⟩ := exists_last isNumber blanks
      have core : trimChars (text.toList.map Char.toLower) = number ++ between ++ unit.name := by
        rw [layout, List.append_assoc before, List.append_assoc before]
        refine trimChars_append hb ha ⟨?_, ?_⟩
        · intro d first
          obtain ⟨c, hc, -⟩ := isNumber.getLast?
          have nonempty : number ≠ [] := by
            rintro rfl
            contradiction
          rw [List.append_assoc, List.head?_append, List.head?_eq_some_head nonempty] at first
          exact bare.head d ((List.head?_eq_some_head nonempty).trans first)
        · intro d final
          rw [List.getLast?_append] at final
          cases unit <;> (obtain rfl := Option.some.inj final; rfl)
      refine ⟨number ++ between, ?_, ?_⟩
      · rw [core, SpanUnit.splitUnit_append (.name unit) last other]
      · have same := trimChars_append blanks_nil blanks bare
        rw [List.nil_append] at same
        rwa [same]
  · rintro ⟨number, split, isNumber⟩
    obtain ⟨name, named, whole⟩ :=
      SpanUnit.exists_name_of_splitUnit (trimChars (text.toList.map Char.toLower))
    rw [split] at named whole
    obtain ⟨before, after, layout, hb, ha⟩ := exists_eq_trimChars (text.toList.map Char.toLower)
    obtain ⟨left, right, parts, hl, hr⟩ := exists_eq_trimChars number
    refine ⟨before ++ left, trimChars number, right, name, after, ?_, ?_, isNumber, hr, named, ha⟩
    · rw [layout, whole]
      conv_lhs => rw [parts]
      simp only [List.append_assoc]
    · exact blanks_append.2 ⟨hb, hl⟩

/-- A text says one amount of one unit at most. -/
theorem Expresses.unique {text : String} {n m : Nat} {unit unit' : SpanUnit}
    (h : Expresses text n unit) (h' : Expresses text m unit') : n = m ∧ unit = unit' := by
  obtain ⟨number, split, isNumber⟩ := expresses_iff.1 h
  obtain ⟨number', split', isNumber'⟩ := expresses_iff.1 h'
  obtain ⟨rfl, rfl⟩ := Prod.mk.inj (split.symm.trans split')
  have read := digits?_dropPlus_eq_some_iff.2 isNumber
  have read' := digits?_dropPlus_eq_some_iff.2 isNumber'
  exact ⟨Option.some.inj (read.symm.trans read'), rfl⟩

/-- What reading a text comes to: a span, or the report of what is wrong with the text between the
blanks at its ends. -/
inductive Reads (text : String) : Except ConfigError Span → Prop
  /-- There is nothing but blanks. -/
  | empty (blank : isBlankText text = true) : Reads text (.error .emptySpan)
  /-- The text says no amount, or one that does not fit into 64 bits. -/
  | malformed (something : isBlankText text = false)
    (other : ∀ n unit, Expresses text n unit → 2 ^ 64 ≤ n) :
    Reads text (.error (.malformedSpan (trim text)))
  /-- The amount fits, but not its milliseconds. -/
  | excessive {n : Nat} {unit : SpanUnit} (amount : Expresses text n unit) (fits : n < 2 ^ 64)
    (much : 2 ^ 64 ≤ n * unit.millis) : Reads text (.error (.excessiveSpan (trim text)))
  | zero {unit : SpanUnit} (amount : Expresses text 0 unit) :
    Reads text (.error (.zeroSpan (trim text)))
  | span {n : Nat} {unit : SpanUnit} (amount : Expresses text n unit) (some : 1 ≤ n * unit.millis)
    (fits : n * unit.millis < 2 ^ 64) : Reads text (.ok (.ofMillis (n * unit.millis)))

/-- **Every text is read as it should be**, or refused for the right reason. -/
theorem reads_parseSpan (text : String) : Reads text (parseSpan text) := by
  rw [parseSpan]
  by_cases blank : isBlankText text = true
  · rw [if_pos (trim_eq_empty_iff.2 blank)]
    exact .empty blank
  · rw [if_neg (mt trim_eq_empty_iff.1 blank)]
    obtain ⟨number, unit, split⟩ : ∃ number unit,
        splitUnit ((trim text).toList.map Char.toLower) = (number, unit) :=
      ⟨_, _, (Prod.eta _).symm⟩
    simp only [split]
    cases read : natural? wordBound (trimChars number) with
    | none =>
      refine .malformed (by simpa using blank) ?_
      intro n unit' amount
      by_contra fits
      obtain ⟨number', split', isNumber⟩ := expresses_iff.1 amount
      obtain ⟨rfl, rfl⟩ := Prod.mk.inj (split.symm.trans split')
      have found : natural? wordBound (trimChars number) = some n :=
        natural?_eq_some_iff.2 ⟨isNumber, Nat.lt_of_not_le fits⟩
      exact Option.some_ne_none n (found.symm.trans read)
    | some n =>
      obtain ⟨isNumber, fits⟩ := natural?_eq_some_iff.1 read
      have amount : Expresses text n unit := expresses_iff.2 ⟨number, split, isNumber⟩
      simp only
      by_cases much : wordBound ≤ n * unit.millis
      · rw [if_pos much]
        exact .excessive amount fits much
      · rw [if_neg much]
        by_cases zero : n * unit.millis = 0
        · rw [if_pos zero]
          have none : n = 0 := (Nat.mul_eq_zero.1 zero).resolve_right unit.pos_millis.ne'
          exact .zero (none ▸ amount)
        · rw [if_neg zero]
          exact .span amount (Nat.one_le_iff_ne_zero.2 zero) (Nat.lt_of_not_le much)

/-- The text says a span of whole milliseconds, at least one of them, and they fit into 64 bits. -/
def IsSpanText (text : String) (d : Span) : Prop :=
  ∃ n unit, Expresses text n unit ∧ n < 2 ^ 64 ∧ 1 ≤ n * unit.millis ∧ n * unit.millis < 2 ^ 64 ∧
    d = .ofMillis (n * unit.millis)

/-- A span that was read is that of the text, and it is longer than nothing. -/
theorem isSpanText_of_parseSpan {text : String} {d : Span} (h : parseSpan text = .ok d) :
    IsSpanText text d ∧ 0 < d.nanoseconds := by
  have reads := reads_parseSpan text
  rw [h] at reads
  cases reads with
  | @span n unit amount some fits =>
    have positive := unit.pos_millis
    have word : n < 2 ^ 64 := Nat.lt_of_le_of_lt (Nat.le_mul_of_pos_right n positive) fits
    refine ⟨⟨n, unit, amount, word, some, fits, rfl⟩, ?_⟩
    change 0 < n * unit.millis * 1000000
    omega

/-- The span of a text is read. -/
theorem parseSpan_of_isSpanText {text : String} {d : Span} (h : IsSpanText text d) :
    parseSpan text = .ok d := by
  obtain ⟨n, unit, amount, word, some, fits, rfl⟩ := h
  have reads := reads_parseSpan text
  generalize parseSpan text = result at reads
  cases reads with
  | empty blank =>
    obtain ⟨number, split, isNumber⟩ := expresses_iff.1 amount
    rw [trim_eq_empty_iff.2 blank] at split
    obtain ⟨rfl, -⟩ := Prod.mk.inj split
    obtain ⟨c, last, -⟩ := isNumber.getLast?
    contradiction
  | malformed something other =>
    have := other n unit amount
    omega
  | excessive amount' fits' much =>
    obtain ⟨rfl, rfl⟩ := amount.unique amount'
    omega
  | zero amount' =>
    obtain ⟨rfl, rfl⟩ := amount.unique amount'
    omega
  | span amount' some' fits' =>
    obtain ⟨rfl, rfl⟩ := amount.unique amount'
    rfl

/-- **Which texts are spans.** A span is read off a text exactly if the text says it; every other
text is refused, and no span is empty. -/
theorem parseSpan_eq_ok_iff (text : String) :
    (∀ d, parseSpan text = .ok d ↔ IsSpanText text d) ∧
      ((∃ e, parseSpan text = .error e) ↔ ¬ ∃ d, IsSpanText text d) ∧
      parseSpan text ≠ .ok ⟨0⟩ := by
  have read : ∀ d, parseSpan text = .ok d ↔ IsSpanText text d := by
    intro d
    constructor
    · intro h
      exact (isSpanText_of_parseSpan h).1
    · intro h
      exact parseSpan_of_isSpanText h
  refine ⟨read, ?_, ?_⟩
  · simp only [← read]
    cases parseSpan text <;> simp
  · intro h
    exact absurd (isSpanText_of_parseSpan h).2 (Nat.lt_irrefl 0)

example : parseSpan " +05\u00a0Ms " = .ok (.ofMillis 5) := by decide +kernel

end LeasePool
