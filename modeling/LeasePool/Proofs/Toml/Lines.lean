import LeasePool.Proofs.Toml.Values

/-!
# Documents are read line by line

What is written of a table is its header and a line for each of its values, and between tables an
empty line. Each of these lines is read as what it was written for, and reading goes on with the
next one.
-/

namespace LeasePool.Toml

variable {c : Char} {k last : String} {outer : List String} {rest : List Char}

/-! ## Keys -/

/-- The key needs no quotes. -/
def IsBareKey (k : String) : Prop := k.toList ≠ [] ∧ ∀ c ∈ k.toList, isBare c = true

instance : Decidable (IsBareKey k) :=
  decidable_of_iff (k.toList ≠ [] ∧ k.toList.all isBare = true)
    (by rw [IsBareKey, List.all_eq_true])

theorem isBlank_of_isBare (bare : isBare c = true) : isBlank c = false := by
  simp [isBlank, ne_of_test bare (d := ' ') rfl, ne_of_test bare (d := '\t') rfl]

/-- The first character of a key. -/
theorem IsBareKey.exists_head (H : IsBareKey k) : ∃ c t, k.toList = c :: t ∧ isBare c = true := by
  obtain ⟨some, bare⟩ := H
  cases layout : k.toList with
  | nil => exact absurd layout some
  | cons c t => exact ⟨c, t, rfl, bare c (by simp [layout])⟩

/-- Nothing comes before a key. -/
theorem skipBlanks_key (H : IsBareKey k) : skipBlanks (k.toList ++ rest) = k.toList ++ rest := by
  obtain ⟨c, t, layout, bare⟩ := H.exists_head
  rw [layout, List.cons_append, skipBlanks,
    List.dropWhile_cons_of_neg (by simp [isBlank_of_isBare bare])]

/-- **A key is read** up to a character that is none of a key. -/
theorem key?_key (H : IsBareKey k) (other : isBare c = false) :
    key? (k.toList ++ c :: rest) = some (k, c :: rest) := by
  obtain ⟨d, t, layout, bare⟩ := H.exists_head
  have head : (k.toList ++ c :: rest).takeWhile isBare = k.toList := by
    rw [List.takeWhile_append_of_pos H.2]
    simp [other]
  have tail : (k.toList ++ c :: rest).dropWhile isBare = c :: rest := by
    rw [List.dropWhile_append_of_pos H.2]
    simp [other]
  have noDouble : ∀ t, k.toList ++ c :: rest ≠ '"' :: t := by
    intro t same
    rw [layout] at same
    exact ne_of_test bare rfl (List.cons.inj same).1
  have noSingle : ∀ t, k.toList ++ c :: rest ≠ '\'' :: t := by
    intro t same
    rw [layout] at same
    exact ne_of_test bare rfl (List.cons.inj same).1
  rw [key?, head, tail]
  · split
    · rename_i empty
      exact absurd empty H.1
    · rw [String.ofList_toList]
  · exact noDouble
  · exact noSingle

/-- The keys of a path with points between them. -/
def spelledPath (path : List String) : List Char := ['.'].intercalate (path.map String.toList)

theorem spelledPath_singleton : spelledPath [k] = k.toList := by
  simp [spelledPath]

theorem spelledPath_cons {path : List String} (more : path ≠ []) :
    spelledPath (k :: path) = k.toList ++ '.' :: spelledPath path := by
  obtain ⟨l, path, rfl⟩ := List.exists_cons_of_ne_nil more
  rw [spelledPath, List.map_cons, List.map_cons, List.intercalate_cons_cons, List.append_assoc]
  rfl

/-- A single key is read, and the blanks after it. -/
theorem dottedKey?_key {limit : Nat} (H : IsBareKey k) (other : isBare c = false)
    (noPoint : ∀ t, skipBlanks (c :: rest) ≠ '.' :: t) :
    dottedKey? (limit + 1) (k.toList ++ c :: rest) = some (⟨[], k⟩, skipBlanks (c :: rest)) := by
  rw [dottedKey?, skipBlanks_key H, key?_key H other]
  simp only [Option.bind_eq_bind, Option.bind_some, Option.pure_def]

/-- **The keys in a header** are read up to the bracket. -/
theorem dottedKey?_path {limit : Nat} (bare : ∀ k ∈ outer ++ [last], IsBareKey k)
    (short : outer.length < limit) :
    dottedKey? limit (spelledPath (outer ++ [last]) ++ ']' :: rest) =
      some (⟨outer, last⟩, ']' :: rest) := by
  induction outer generalizing limit with
  | nil =>
    obtain ⟨limit, rfl⟩ := Nat.exists_eq_add_of_lt short
    have H : IsBareKey last := bare last (by simp)
    rw [List.nil_append, spelledPath_singleton,
      dottedKey?_key H rfl (by simp [skipBlanks, isBlank])]
    rfl
  | cons k outer ih =>
    obtain ⟨limit, rfl⟩ := Nat.exists_eq_succ_of_ne_zero (Nat.ne_zero_of_lt short)
    obtain ⟨H, later⟩ := List.forall_mem_cons.1 bare
    have more := ih later (Nat.lt_of_succ_lt_succ short)
    rw [List.cons_append, spelledPath_cons (by simp), List.append_assoc, List.cons_append,
      dottedKey?, skipBlanks_key H, key?_key H rfl]
    change (dottedKey? limit (spelledPath (outer ++ [last]) ++ ']' :: rest)).bind _ = _
    rw [more]
    rfl

/-! ## Lines -/

/-- The line of a value. -/
def entryLine (e : String × Scalar) : Line := .entry ⟨[], e.1⟩ e.2.item

/-- The line of a header, if there is one. -/
def headerLines (path : List String) : List Line :=
  path.getLast?.toList.map fun last => .header ⟨path.dropLast, last⟩

/-- The lines of a table. -/
def Section.lines (s : Section) : List Line := headerLines s.path ++ s.entries.map entryLine

/-- What can be written under a key. -/
def IsPlainEntry (e : String × Scalar) : Prop := IsBareKey e.1 ∧ e.2.Fits

/-- **A value is read** from its line. -/
theorem line?_entry {e : String × Scalar} (H : IsPlainEntry e) :
    line? (entryText e ++ rest) = some (entryLine e, rest) := by
  obtain ⟨k, v⟩ := e
  obtain ⟨bare, fits⟩ := H
  obtain ⟨d, t, layout, first⟩ := IsBareKey.exists_head bare
  have key : dottedKey? depthLimit (k.toList ++ ' ' :: '=' :: ' ' :: (v.text ++ '\n' :: rest)) =
      some (⟨[], k⟩, skipBlanks (' ' :: '=' :: ' ' :: (v.text ++ '\n' :: rest))) :=
    dottedKey?_key bare rfl (by simp [skipBlanks, isBlank])
  have value : value? depthLimit (skipBlanks (' ' :: (v.text ++ '\n' :: rest))) =
      some (v.item, '\n' :: rest) := value?_text fits
  have whole : entryText (k, v) ++ rest =
      k.toList ++ ' ' :: '=' :: ' ' :: (v.text ++ '\n' :: rest) := by
    simp [entryText]
  rw [whole]
  have noHeader : ∀ t, k.toList ++ ' ' :: '=' :: ' ' :: (v.text ++ '\n' :: rest) ≠ '[' :: t := by
    intro t same
    rw [layout] at same
    exact ne_of_test first rfl (List.cons.inj same).1
  rw [line?]
  · change (dottedKey? depthLimit _).bind _ = _
    rw [key]
    change (value? depthLimit (skipBlanks (' ' :: (v.text ++ '\n' :: rest)))).bind _ = _
    rw [value]
    rfl
  · exact fun t => noHeader _
  · exact fun t => noHeader _

/-- A path begins with a character of a key. -/
theorem exists_spelledPath {path : List String} (some : path ≠ [])
    (bare : ∀ k ∈ path, IsBareKey k) : ∃ c t, spelledPath path = c :: t ∧ isBare c = true := by
  obtain ⟨k, path, rfl⟩ := List.exists_cons_of_ne_nil some
  obtain ⟨c, t, layout, first⟩ := (bare k List.mem_cons_self).exists_head
  cases path with
  | nil => exact ⟨c, t, by rw [spelledPath_singleton, layout], first⟩
  | cons l path =>
    rw [spelledPath_cons (by simp), layout]
    exact ⟨c, _, rfl, first⟩

/-- **A header is read** from its line. -/
theorem line?_header (bare : ∀ k ∈ outer ++ [last], IsBareKey k)
    (short : outer.length < depthLimit) :
    line? ('[' :: (spelledPath (outer ++ [last]) ++ ']' :: '\n' :: rest)) =
      some (.header ⟨outer, last⟩, rest) := by
  obtain ⟨c, t, layout, first⟩ := exists_spelledPath (by simp) bare
  rw [line?]
  · change (dottedKey? depthLimit _).bind _ = _
    rw [dottedKey?_path bare short]
    rfl
  · rw [layout]
    exact fun t same => ne_of_test first rfl (List.cons.inj same).1

/-! ## Tables -/

/-- A table that can be written: its header has not too many keys. -/
structure Section.IsPlain (s : Section) : Prop where
  path : ∀ k ∈ s.path, IsBareKey k
  short : s.path.length ≤ depthLimit
  entries : ∀ e ∈ s.entries, IsPlainEntry e

/-- The input is read as some lines. -/
def Spells (input : List Char) (lines : List Line) : Prop :=
  ∀ fuel, input.length < fuel → lines? fuel input = some lines

variable {lines : List Line} {line : Line} {input : List Char}

theorem spells_nil : Spells [] [] := by
  intro fuel enough
  obtain ⟨fuel, rfl⟩ := Nat.exists_eq_succ_of_ne_zero (Nat.ne_zero_of_lt enough)
  rfl

/-- An empty line says nothing. -/
theorem Spells.feed (H : Spells rest lines) : Spells ('\n' :: rest) lines := by
  intro fuel enough
  obtain ⟨fuel, rfl⟩ := Nat.exists_eq_succ_of_ne_zero (Nat.ne_zero_of_lt enough)
  have next := H fuel (Nat.lt_of_succ_lt_succ enough)
  rw [lines?]
  exact next

/-- **One line more** is read first. -/
theorem Spells.next (H : Spells rest lines) (begins : isBare c = true ∨ c = '[')
    (read : line? (c :: input) = some (line, rest)) (shorter : rest.length ≤ input.length) :
    Spells (c :: input) (line :: lines) := by
  intro fuel enough
  obtain ⟨fuel, rfl⟩ := Nat.exists_eq_succ_of_ne_zero (Nat.ne_zero_of_lt enough)
  have next := H fuel (Nat.lt_of_le_of_lt shorter (Nat.lt_of_succ_lt_succ enough))
  have other : ∀ d, isBare d = false → d ≠ '[' → c ≠ d := by
    rintro d bare bracket rfl
    rcases begins with begins | begins
    · exact ne_of_test begins bare rfl
    · exact bracket begins
  have noBlank : isBlank c = false := by
    simp [isBlank, other ' ' rfl (by decide), other '\t' rfl (by decide)]
  have skipped : skipBlanks (c :: input) = c :: input := by
    rw [skipBlanks, List.dropWhile_cons_of_neg (by simp [noBlank])]
  rw [lines?, skipped]
  simp only [other '#' rfl (by decide), other '\n' rfl (by decide), other '\r' rfl (by decide),
    or_self, if_false, read, Option.bind_eq_bind, Option.bind_some, next, Option.pure_def]

/-- **The values of a table** are read, and then what comes after them. -/
theorem Spells.entries {es : List (String × Scalar)} (H : Spells rest lines)
    (plain : ∀ e ∈ es, IsPlainEntry e) :
    Spells (es.flatMap entryText ++ rest) (es.map entryLine ++ lines) := by
  induction es with
  | nil => exact H
  | cons e es ih =>
    obtain ⟨here, later⟩ := List.forall_mem_cons.1 plain
    obtain ⟨c, t, layout, bare⟩ := here.1.exists_head
    have whole : ∀ r, entryText e ++ r =
        c :: (t ++ ([' ', '=', ' '] ++ (e.2.text ++ '\n' :: r))) := by
      intro r
      simp [entryText, layout]
    rw [List.flatMap_cons, List.append_assoc, List.map_cons, List.cons_append, whole]
    refine (ih later).next (.inl bare) ?_ (by simp; omega)
    rw [← whole]
    exact line?_entry here

/-- **A table** is read, and then what comes after it. -/
theorem Spells.table {s : Section} (H : Spells rest lines) (plain : s.IsPlain) :
    Spells (s.text ++ rest) (s.lines ++ lines) := by
  obtain ⟨path, es⟩ := s
  have entries := H.entries plain.entries
  rcases List.eq_nil_or_concat path with rfl | ⟨outer, last, rfl⟩
  · exact entries
  · rw [List.concat_eq_append] at plain ⊢
    have short : outer.length < depthLimit := by
      have short := plain.short
      simp only [List.length_append, List.length_singleton] at short
      omega
    have text : Section.text ⟨outer ++ [last], es⟩ ++ rest =
        '[' ::
          (spelledPath (outer ++ [last]) ++ ']' :: '\n' :: (es.flatMap entryText ++ rest)) := by
      simp [Section.text, spelledPath]
    have header : headerLines (outer ++ [last]) = [.header ⟨outer, last⟩] := by
      simp [headerLines]
    rw [text, Section.lines, header, List.append_assoc]
    exact entries.next (.inr rfl) (line?_header plain.path short) (by simp; omega)

/-- **Tables are read** one after the other. -/
theorem spells_tables {sections : List Section} (plain : ∀ s ∈ sections, s.IsPlain) :
    Spells (['\n'].intercalate (sections.map Section.text)) (sections.flatMap Section.lines) := by
  induction sections with
  | nil => exact spells_nil
  | cons s sections ih =>
    obtain ⟨here, later⟩ := List.forall_mem_cons.1 plain
    cases sections with
    | nil =>
      have only := spells_nil.table here
      simpa using only
    | cons t sections =>
      rw [List.map_cons, List.map_cons, List.intercalate_cons_cons, List.append_assoc,
        List.flatMap_cons]
      exact (ih later).feed.table here

/-- A table begins with no byte order mark. -/
theorem Section.IsPlain.dropMark_append {s : Section} (H : s.IsPlain)
    (after : dropMark rest = rest) : dropMark (s.text ++ rest) = s.text ++ rest := by
  obtain ⟨path, es⟩ := s
  by_cases top : path = []
  · subst path
    cases es with
    | nil => exact after
    | cons e es =>
      obtain ⟨c, t, layout, bare⟩ := (H.entries e List.mem_cons_self).1.exists_head
      have text : Section.text ⟨[], e :: es⟩ ++ rest =
          c :: (t ++ ([' ', '=', ' '] ++ e.2.text ++ '\n' :: (es.flatMap entryText ++ rest))) := by
        simp [Section.text, entryText, layout]
      rw [text, dropMark]
      exact fun t same => ne_of_test bare rfl (List.cons.inj same).1
  · simp [Section.text, top, dropMark]

/-- **A document is read as the lines of its tables.** -/
theorem parse?_render {sections : List Section} (plain : ∀ s ∈ sections, s.IsPlain) :
    parse? (render sections) = ofLines? (sections.flatMap Section.lines) := by
  have reads := spells_tables plain
  have noMark : dropMark (['\n'].intercalate (sections.map Section.text)) =
      ['\n'].intercalate (sections.map Section.text) := by
    cases sections with
    | nil => rfl
    | cons s sections =>
      obtain ⟨here, later⟩ := List.forall_mem_cons.1 plain
      cases sections with
      | nil =>
        have only : dropMark (s.text ++ []) = s.text ++ [] := here.dropMark_append rfl
        simpa using only
      | cons t sections =>
        rw [List.map_cons, List.map_cons, List.intercalate_cons_cons, List.append_assoc]
        exact here.dropMark_append rfl
  rw [parse?, render, String.toList_ofList, noMark]
  simp only [reads _ (Nat.lt_succ_self _), Option.bind_eq_bind, Option.bind_some]

end LeasePool.Toml
