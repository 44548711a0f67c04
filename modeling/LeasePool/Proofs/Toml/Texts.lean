import LeasePool.Toml.Printer
import LeasePool.Toml.Reader

/-!
# Texts are read as they are written

Whatever its characters, a text is read again from what is written of it, in each of the ways to
write it. A quote that stands right before the closing ones counts as one of the text, because no
quote comes after them; three in a row never stand in the text itself.
-/

namespace LeasePool.Toml

variable {c e x y : Char} {s rest : List Char}

/-! ## Characters -/

/-- What a test tells apart is not the same. -/
theorem ne_of_test {p : Char → Bool} {d : Char} (passes : p c = true) (fails : p d = false) :
    c ≠ d := by
  rintro rfl
  rw [passes] at fails
  contradiction

/-- What is no control character can stand in a text as it is, but for the line feed. -/
theorem isTextual_of_plain (plain : isControl c = false) (noFeed : c ≠ '\n') :
    isTextual c = true := by
  by_cases tab : c = '\t'
  · subst tab
    rfl
  · simp only [isControl, Bool.or_eq_false_iff, Bool.and_eq_false_iff, decide_eq_false_iff_not,
      ne_eq, Classical.not_not, tab, noFeed, or_false, Char.not_lt] at plain
    simp [isTextual, plain]

/-- A character of a text is no line end. -/
theorem ne_of_isTextual (textual : isTextual c = true) : c ≠ '\n' ∧ c ≠ '\r' :=
  ⟨ne_of_test textual rfl, ne_of_test textual rfl⟩

/-- The letters that stand for a character after a backslash. -/
def shortEscapes : List Char := ['b', 't', 'n', 'f', 'r', '"', '\\']

/-- The ways to write a character between double quotes. -/
inductive ShowsChar (c : Char) : List Char → Prop
  | short {e : Char} (known : e ∈ shortEscapes) (stands : escaped? e = some c) :
    ShowsChar c ['\\', e]
  | code {x y : Char} (stands : unicode? ['0', '0', x, y] = some c) :
    ShowsChar c ['\\', 'u', '0', '0', x, y]
  | itself (textual : isTextual c = true) (noQuote : c ≠ '"') (noSlash : c ≠ '\\') :
    ShowsChar c [c]

/-- The code of a control character is read as the character. -/
theorem unicode?_of_isControl (control : isControl c = true) :
    unicode? ['0', '0', Text.upperDigit (c.toNat / 16), Text.upperDigit (c.toNat % 16)] =
      some c := by
  have all : ∀ n < 128, unicode? ['0', '0', Text.upperDigit (n / 16), Text.upperDigit (n % 16)] =
      some (Char.ofNat n) := by decide +kernel
  have small : c.toNat < 128 := by
    simp only [isControl, Bool.or_eq_true, Bool.and_eq_true, decide_eq_true_eq] at control
    rcases control with ⟨⟨below, -⟩, -⟩ | rfl
    · have below : c.toNat < 32 := below
      omega
    · decide
  rw [all _ small, Char.ofNat_toNat]

/-- **Characters are written in one of these ways.** -/
theorem showsChar_escapedChar (c : Char) : ShowsChar c (escapedChar c) := by
  unfold escapedChar
  split
  · subst c; exact .short (by decide) rfl
  split
  · subst c; exact .short (by decide) rfl
  split
  · subst c; exact .short (by decide) rfl
  split
  · subst c; exact .short (by decide) rfl
  split
  · subst c; exact .short (by decide) rfl
  split
  · subst c; exact .short (by decide) rfl
  split
  · subst c; exact .short (by decide) rfl
  split
  · rename_i control
    exact .code (unicode?_of_isControl control)
  · rename_i noFeed _ _ noQuote noSlash plain
    exact .itself (isTextual_of_plain (by simpa using plain) noFeed) noQuote noSlash

/-- A written character begins with no quote. -/
theorem ShowsChar.head {t : List Char} (H : ShowsChar c t) : ∃ d t', t = d :: t' ∧ d ≠ '"' := by
  cases H with
  | short => exact ⟨_, _, rfl, by decide⟩
  | code => exact ⟨_, _, rfl, by decide⟩
  | itself _ noQuote => exact ⟨_, _, rfl, noQuote⟩

/-! ## One line -/

/-- A character is read between double quotes, in whatever way it is written. -/
theorem quotedTail_of_showsChar {t : List Char} (H : ShowsChar c t) :
    quotedTail (t ++ rest) = (quotedTail rest).map (cons c) := by
  cases H with
  | short known stands =>
    simp only [shortEscapes, List.mem_cons, List.not_mem_nil, or_false] at known
    rcases known with rfl | rfl | rfl | rfl | rfl | rfl | rfl <;> simp [quotedTail, stands]
  | code stands => simp [quotedTail, stands]
  | itself textual noQuote noSlash =>
    rw [List.singleton_append, quotedTail, if_pos ⟨textual, noSlash⟩]
    · exact noQuote
    · exact fun _ _ _ _ _ slash => (noSlash slash).elim
    · exact fun _ _ _ _ _ _ _ _ _ slash => (noSlash slash).elim
    · exact fun _ _ slash => (noSlash slash).elim

/-- **A text between double quotes** is read. -/
theorem quotedTail_flatMap :
    quotedTail (s.flatMap escapedChar ++ '"' :: rest) = some (s, rest) := by
  induction s with
  | nil => simp [quotedTail]
  | cons c s ih =>
    rw [List.flatMap_cons, List.append_assoc, quotedTail_of_showsChar (showsChar_escapedChar c), ih]
    rfl

/-- **A text between single quotes** is read. -/
theorem verbatimTail_append (textual : ∀ c ∈ s, isTextual c = true) (noQuote : '\'' ∉ s) :
    verbatimTail (s ++ '\'' :: rest) = some (s, rest) := by
  induction s with
  | nil => simp [verbatimTail]
  | cons c s ih =>
    obtain ⟨here, later⟩ := List.forall_mem_cons.1 textual
    rw [List.mem_cons, not_or] at noQuote
    rw [List.cons_append, verbatimTail, if_pos here, ih later noQuote.2]
    · rfl
    · exact fun quote => noQuote.1 quote.symm

/-! ## Several lines -/

/-- A letter after a backslash is not the end of a line. -/
theorem isLineRest_of_mem (known : e ∈ shortEscapes) : isLineRest (e :: rest) = false := by
  simp only [shortEscapes, List.mem_cons, List.not_mem_nil, or_false] at known
  rcases known with rfl | rfl | rfl | rfl | rfl | rfl | rfl <;> rfl

/-- A character is read between three double quotes, in whatever way it is written. -/
theorem quotedLines_of_showsChar {t : List Char} (H : ShowsChar c t) :
    quotedLines false (t ++ rest) = (quotedLines false rest).map (cons c) := by
  cases H with
  | @short e known stands =>
    have noEnd : isLineRest (e :: rest) = false := isLineRest_of_mem known
    simp only [shortEscapes, List.mem_cons, List.not_mem_nil, or_false] at known
    rcases known with rfl | rfl | rfl | rfl | rfl | rfl | rfl <;> simp [quotedLines, stands, noEnd]
  | code stands => simp [quotedLines, stands]
  | itself textual noQuote noSlash =>
    obtain ⟨noFeed, noReturn⟩ := ne_of_isTextual textual
    rw [List.singleton_append, quotedLines, Bool.false_and, if_neg Bool.false_ne_true,
      if_pos ⟨textual, noSlash⟩]
    · exact fun _ quote => (noQuote quote).elim
    · exact fun _ quote => (noQuote quote).elim
    · exact fun _ quote => (noQuote quote).elim
    · exact noFeed
    · exact fun _ ret => (noReturn ret).elim
    · exact fun _ _ _ _ _ slash => (noSlash slash).elim
    · exact fun _ _ _ _ _ _ _ _ _ slash => (noSlash slash).elim
    · exact fun _ _ slash => (noSlash slash).elim

/-- The input does not begin with the quote. -/
def EndsQuotes (quote : Char) (input : List Char) : Prop := ∀ rest, input ≠ quote :: rest

/-- A quote that two others do not follow is one of the text. -/
theorem quotedLines_quote (few : ∀ input, rest ≠ '"' :: '"' :: input) :
    quotedLines false ('"' :: rest) = (quotedLines false rest).map (cons '"') := by
  rw [quotedLines, Bool.false_and, if_neg Bool.false_ne_true, if_pos (by decide)]
  · exact fun _ _ more => few _ more
  · exact fun _ _ more => few _ more
  · exact fun _ _ more => few _ more
  all_goals simp

/-- Up to two quotes are read that are no part of three. -/
theorem quotedLines_quotes {n : Nat} (few : n ≤ 2) (ends : EndsQuotes '"' rest) :
    quotedLines false (List.replicate n '"' ++ rest) =
      (quotedLines false rest).map fun r => (List.replicate n '"' ++ r.1, r.2) := by
  have one : quotedLines false ('"' :: rest) = (quotedLines false rest).map (cons '"') :=
    quotedLines_quote fun input => ends _
  match n with
  | 0 => simp
  | 1 => exact one
  | 2 =>
    have two : quotedLines false ('"' :: '"' :: rest) =
        (quotedLines false ('"' :: rest)).map (cons '"') :=
      quotedLines_quote fun input same => ends _ (List.cons.inj same).2
    change quotedLines false ('"' :: '"' :: rest) = _
    rw [two, one, Option.map_map]
    rfl

/-- The closing quotes come after as many quotes of the text as there are before the last
three. -/
theorem quotedLines_end {n : Nat} (few : n ≤ 2) (ends : EndsQuotes '"' rest) :
    quotedLines false (List.replicate n '"' ++ '"' :: '"' :: '"' :: rest) =
      some (List.replicate n '"', rest) := by
  match n with
  | 0 =>
    rw [List.replicate_zero, List.nil_append, quotedLines]
    · intro input same
      exact ends _ same
    · intro input same
      exact ends _ same
  | 1 =>
    change quotedLines false ('"' :: '"' :: '"' :: '"' :: rest) = _
    rw [quotedLines]
    · rfl
    · intro input same
      exact ends _ same
  | 2 =>
    change quotedLines false ('"' :: '"' :: '"' :: '"' :: '"' :: rest) = _
    rw [quotedLines]
    rfl

/-- Quotes of the text, then something that shows one of its characters, and then the others. -/
theorem quotedLines_then {n : Nat} {t later : List Char} (few : n ≤ 2)
    (head : EndsQuotes '"' (t ++ later))
    (shows : quotedLines false (t ++ later) = (quotedLines false later).map (cons c))
    (reads : quotedLines false later = some (s, rest)) :
    quotedLines false (List.replicate n '"' ++ (t ++ later)) =
      some (List.replicate n '"' ++ c :: s, rest) := by
  rw [quotedLines_quotes few head, shows, reads]
  rfl

/-- **A text between three double quotes** is read, of which some quotes have been written. -/
theorem quotedLines_escapedLines {n : Nat} (few : n ≤ 2) (ends : EndsQuotes '"' rest) :
    quotedLines false (List.replicate n '"' ++ (escapedLines n s ++ '"' :: '"' :: '"' :: rest)) =
      some (List.replicate n '"' ++ s, rest) := by
  induction s generalizing n with
  | nil => rw [escapedLines, List.nil_append, List.append_nil, quotedLines_end few ends]
  | cons c s ih =>
    have next := ih (n := 0) (Nat.zero_le 2)
    rw [List.replicate_zero, List.nil_append, List.nil_append] at next
    rw [escapedLines]
    split
    · subst c
      split
      · subst n
        exact quotedLines_then (t := ['\\', '"']) few nofun
          (quotedLines_of_showsChar (.short (by decide) rfl)) next
      · have more := ih (n := n + 1) (by omega)
        rw [List.replicate_succ', List.append_assoc, List.append_assoc] at more
        exact more
    · split
      · subst c
        exact quotedLines_then (t := ['\n']) few nofun (by simp [quotedLines]) next
      · have shows := showsChar_escapedChar c
        obtain ⟨d, t, head, noQuote⟩ := shows.head
        rw [List.append_assoc]
        refine quotedLines_then few ?_ (quotedLines_of_showsChar shows) next
        rw [head]
        exact fun _ same => noQuote (List.cons.inj same).1

/-- No three single quotes in a row: there are none after the first character, either. -/
theorem hasTriple_of_cons {q : Char} (none : hasTriple q (c :: s) = false) :
    hasTriple q s = false := by
  match s with
  | [] => rfl
  | [_] => rfl
  | _ :: _ :: _ =>
    rw [hasTriple, Bool.or_eq_false_iff] at none
    exact none.2

/-- A character is read between three single quotes. A quote is, too, if two others do not
follow. -/
theorem verbatimLines_char (plain : isControl c = false)
    (few : ∀ input, c = '\'' → rest ≠ '\'' :: '\'' :: input) :
    verbatimLines (c :: rest) = (verbatimLines rest).map (cons c) := by
  by_cases feed : c = '\n'
  · subst c
    rw [verbatimLines]
  · have textual := isTextual_of_plain plain feed
    obtain ⟨-, noReturn⟩ := ne_of_isTextual textual
    rw [verbatimLines, if_pos textual]
    · exact fun _ quote more => few _ quote more
    · exact fun _ quote more => few _ quote more
    · exact fun _ quote more => few _ quote more
    · exact feed
    · exact fun _ ret => (noReturn ret).elim

/-- **A text between three single quotes** is read. -/
theorem verbatimLines_append (plain : ∀ c ∈ s, isControl c = false)
    (none : hasTriple '\'' s = false) (ends : EndsQuotes '\'' rest) :
    verbatimLines (s ++ '\'' :: '\'' :: '\'' :: rest) = some (s, rest) := by
  induction s with
  | nil =>
    rw [List.nil_append, verbatimLines]
    · exact fun input same => ends _ same
    · exact fun input same => ends _ same
  | cons c s ih =>
    obtain ⟨here, later⟩ := List.forall_mem_cons.1 plain
    have next := ih later (hasTriple_of_cons none)
    -- Only a quote next to the closing ones is read with them.
    by_cases few : ∀ input, c = '\'' → s ++ '\'' :: '\'' :: '\'' :: rest ≠ '\'' :: '\'' :: input
    · rw [List.cons_append, verbatimLines_char here few, next]
      rfl
    · simp only [Classical.not_forall, Classical.not_not] at few
      obtain ⟨input, rfl, more⟩ := few
      match s with
      | [] =>
        change verbatimLines ('\'' :: '\'' :: '\'' :: '\'' :: rest) = _
        rw [verbatimLines]
        exact fun input same => ends _ same
      | [x] =>
        obtain rfl : x = '\'' := (List.cons.inj more).1
        change verbatimLines ('\'' :: '\'' :: '\'' :: '\'' :: '\'' :: rest) = _
        rw [verbatimLines]
      | x :: y :: _ =>
        obtain ⟨rfl, second⟩ := List.cons.inj more
        obtain rfl : y = '\'' := (List.cons.inj second).1
        simp [hasTriple] at none

/-! ## Any text -/

/-- What can be told of a text that is written between single quotes in one line... -/
theorem of_style_verbatim (h : style s = .verbatim) :
    (∀ c ∈ s, isControl c = false) ∧ '\n' ∉ s ∧ '\'' ∉ s := by
  unfold style at h
  simp only at h
  split at h
  · contradiction
  split at h
  · rename_i cond
    simpa [and_assoc] using cond
  repeat (split at h; contradiction)
  contradiction

/-- ... and in several lines. -/
theorem of_style_verbatimLines (h : style s = .verbatimLines) :
    (∀ c ∈ s, isControl c = false) ∧ hasTriple '\'' s = false := by
  unfold style at h
  simp only at h
  split at h
  · contradiction
  split at h
  · contradiction
  split at h
  · contradiction
  split at h
  · rename_i cond
    simpa using cond
  split at h <;> contradiction

/-- The line feed in front of several lines is no part of them. -/
theorem dropNewline_opening {t : List Char} (one : '\n' ∉ s → newline? t = none) :
    dropNewline ((if s.contains '\n' then ['\n'] else []) ++ t) = t := by
  split
  · rfl
  · rename_i none
    rw [List.nil_append, dropNewline, one (by simpa using none)]
    rfl

/-- A written character begins with no line end. -/
theorem ShowsChar.newline?_append {t : List Char} (H : ShowsChar c t) :
    newline? (t ++ rest) = none := by
  cases H with
  | short => rfl
  | code => rfl
  | itself textual noQuote noSlash =>
    obtain ⟨noFeed, noReturn⟩ := ne_of_isTextual textual
    rw [List.singleton_append, newline?]
    · exact fun _ same => noFeed (List.cons.inj same).1
    · exact fun _ same => noReturn (List.cons.inj same).1

/-- A single line begins with no line end. -/
theorem newline?_escapedLines (one : '\n' ∉ s) :
    newline? (escapedLines 0 s ++ '"' :: '"' :: '"' :: rest) = none := by
  cases s with
  | nil => rfl
  | cons c s =>
    rw [List.mem_cons, not_or] at one
    rw [escapedLines]
    split
    · rfl
    · rw [if_neg (Ne.symm one.1), List.append_assoc]
      exact (showsChar_escapedChar c).newline?_append

/-- What is no control character is no line end, either. -/
theorem newline?_append_of_plain (plain : ∀ c ∈ s, isControl c = false) (one : '\n' ∉ s) :
    newline? (s ++ '\'' :: rest) = none := by
  cases s with
  | nil => rfl
  | cons c s =>
    rw [List.mem_cons, not_or] at one
    have textual := isTextual_of_plain (plain c List.mem_cons_self) (Ne.symm one.1)
    obtain ⟨-, noReturn⟩ := ne_of_isTextual textual
    rw [List.cons_append, newline?]
    · exact fun _ same => one.1 (List.cons.inj same).1.symm
    · exact fun _ same => noReturn (List.cons.inj same).1

/-- Double quotes that are not three in a row are those of one line. -/
theorem string?_of_quoted {input : List Char} (few : ∀ t, input ≠ '"' :: '"' :: t) :
    string? ('"' :: input) = quotedTail input := by
  rw [string?]
  exact few

/-- Single quotes that are not three in a row are those of one line. -/
theorem string?_of_verbatim {input : List Char} (few : ∀ t, input ≠ '\'' :: '\'' :: t) :
    string? ('\'' :: input) = verbatimTail input := by
  rw [string?]
  exact few

/-- **A text is read as it was written**, if no quote comes after it. -/
theorem string?_stringText (double : EndsQuotes '"' rest) (single : EndsQuotes '\'' rest) :
    string? (stringText s ++ rest) = some (s, rest) := by
  rw [stringText]
  cases way : style s with
  | quoted =>
    have few : ∀ t, s.flatMap escapedChar ++ '"' :: rest ≠ '"' :: '"' :: t := by
      intro t same
      cases s with
      | nil => exact double _ (List.cons.inj same).2
      | cons c s =>
        obtain ⟨d, shown, head, noQuote⟩ := (showsChar_escapedChar c).head
        rw [List.flatMap_cons, head] at same
        exact noQuote (List.cons.inj same).1
    simp only [List.cons_append, List.append_assoc, List.nil_append]
    rw [string?_of_quoted few, quotedTail_flatMap]
  | verbatim =>
    obtain ⟨plain, one, noQuote⟩ := of_style_verbatim way
    have textual : ∀ c ∈ s, isTextual c = true := fun c hc =>
      isTextual_of_plain (plain c hc) fun feed => one (feed ▸ hc)
    have few : ∀ t, s ++ '\'' :: rest ≠ '\'' :: '\'' :: t := by
      intro t same
      cases s with
      | nil => exact single _ (List.cons.inj same).2
      | cons c s => exact noQuote ((List.cons.inj same).1 ▸ List.mem_cons_self)
    simp only [List.cons_append, List.append_assoc, List.nil_append]
    rw [string?_of_verbatim few, verbatimTail_append textual noQuote]
  | quotedLines =>
    have reads := quotedLines_escapedLines (n := 0) (s := s) (Nat.zero_le 2) double
    rw [List.replicate_zero, List.nil_append, List.nil_append] at reads
    simp only [List.cons_append, List.append_assoc, List.nil_append]
    rw [string?, dropNewline_opening newline?_escapedLines, reads]
  | verbatimLines =>
    obtain ⟨plain, none⟩ := of_style_verbatimLines way
    simp only [List.cons_append, List.append_assoc, List.nil_append]
    rw [string?, dropNewline_opening (newline?_append_of_plain plain),
      verbatimLines_append plain none single]

/-- A text with quotes of both kinds goes between three double ones, and its own may stand next to
them. -/
example : stringText "\"a'\"".toList = "\"\"\"\"a'\"\"\"\"".toList := by decide +kernel

end LeasePool.Toml
