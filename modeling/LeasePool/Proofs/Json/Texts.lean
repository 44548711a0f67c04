import LeasePool.Proofs.Json.Numbers
import LeasePool.Proofs.Text.Utf8

/-!
# Documents and their text

A document is read from its text, if the reader takes every number in it for what it was written
for. The fuel of the reader is at least the length of the text, and every step into a document
leaves a character of it behind: so the induction is on the fuel, for values, elements and members
together.
-/

namespace LeasePool.Json

variable {s rest : Input} {c : Char} {fuel : Nat}

/-! ## Strings -/

theorem hex4?_digitChar {n : Nat} (small : n < 32) :
    hex4? (some '0') (some '0') (some (n / 16).digitChar) (some (n % 16).digitChar) = some n := by
  revert n
  decide

/-- A character is read from its written form. -/
theorem stringTail_charText (draft : Draft) (c : Char) :
    stringTail draft ((charText c).map some ++ rest) = stringTail (draft.push c) rest := by
  unfold charText
  split_ifs with quote backslash newline back tab bell feed control
  · subst quote
    rfl
  · subst backslash
    rfl
  · subst newline
    rfl
  · subst back
    rfl
  · subst tab
    rfl
  · subst bell
    rfl
  · subst feed
    rfl
  · have small : c.toNat < 32 := control
    have unit : draft.pushUnit c.toNat = draft.push c := by
      rw [Draft.pushUnit, if_neg (by omega), if_neg (by omega), Char.ofNat_toNat]
    simp only [List.map_cons, List.cons_append, List.map_nil, List.nil_append]
    rw [stringTail, hex4?_digitChar small, Option.bind_eq_bind, Option.bind_some, unit]
  · rw [List.map_cons, List.cons_append, List.map_nil, List.nil_append, stringTail,
      if_neg (by rintro (low | same); exacts [control low, backslash same])]
    · exact quote
    · exact fun _ _ _ _ _ _ => backslash
    · exact fun _ _ _ => backslash

theorem stringTail_append (cs text : List Char) :
    stringTail ⟨cs, none, true⟩ ((text.flatMap charText).map some ++ some '"' :: rest) =
      some (some (String.ofList (cs.reverse ++ text)), rest) := by
  induction text generalizing cs with
  | nil =>
    rw [List.append_nil]
    rfl
  | cons c text ih =>
    rw [List.flatMap_cons, List.map_append, List.append_assoc, stringTail_charText]
    exact (ih (c :: cs)).trans (by rw [List.reverse_cons, List.append_assoc, List.singleton_append])

/-- **A text is read from its written form.** -/
theorem stringTail_toList (s : String) :
    stringTail {} ((s.toList.flatMap charText).map some ++ some '"' :: rest) =
      some (some s, rest) := by
  rw [stringTail_append, List.reverse_nil, List.nil_append, String.ofList_toList]

/-! ## Documents -/

mutual
/-- Whether the reader takes every number of the document for what it was written for. A broken
piece has no text. -/
def isReadable : Json → Bool
  | .null | .bool _ | .string _ => true
  | .number n => decide n.IsReadable
  | .array items => itemsAreReadable items
  | .object members => membersAreReadable members
  | .broken => false
/-- Whether this is so for the elements of an array. -/
def itemsAreReadable : List Json → Bool
  | [] => true
  | x :: xs => isReadable x && itemsAreReadable xs
/-- Whether this is so for the members of an object. -/
def membersAreReadable : List (String × Json) → Bool
  | [] => true
  | (_, x) :: ms => isReadable x && membersAreReadable ms
end

/-- The blanks between the parts of a document. -/
def isSpace (c : Char) : Bool :=
  c = ' ' || c = '\n' || c = '\t' || c = '\r'

theorem skipBlanks_cons (h : isSpace c = false) : skipBlanks (some c :: s) = some c :: s := by
  rw [skipBlanks, if_neg]
  rintro (rfl | rfl | rfl | rfl) <;> contradiction

/-- A text that the reader takes for a number is one character or more. -/
theorem numberText_ne_nil {n : Number} (h : n.IsReadable) : numberText n ≠ [] := by
  intro empty
  rw [Number.IsReadable, empty] at h
  contradiction

/-- The text of a value begins with neither a blank nor a bracket that closes. -/
theorem exists_chars {v : Json} (h : v.isReadable = true) :
    ∃ c cs, chars v = c :: cs ∧ isSpace c = false ∧ c ≠ ']' := by
  cases v with
  | null => exact ⟨_, _, rfl, rfl, by decide⟩
  | bool b => cases b <;> exact ⟨_, _, rfl, rfl, by decide⟩
  | string s => exact ⟨_, _, rfl, rfl, by decide⟩
  | array xs => exact ⟨_, _, rfl, rfl, by decide⟩
  | object ms => exact ⟨_, _, rfl, rfl, by decide⟩
  | broken => contradiction
  | number n =>
    obtain ⟨c, cs, text⟩ := List.exists_cons_of_ne_nil (numberText_ne_nil (of_decide_eq_true h))
    have first : isNumberChar c = true := isNumberChar_of_mem_numberText (n := n) (by simp [text])
    refine ⟨c, cs, text, Bool.eq_false_iff.2 fun blank => ?_, ?_⟩
    · simp only [isSpace, Bool.or_eq_true, decide_eq_true_eq] at blank
      rcases blank with ((rfl | rfl) | rfl) | rfl <;> contradiction
    · rintro rfl
      contradiction

theorem exists_itemsText {x : Json} (xs : List Json) (h : x.isReadable = true) :
    ∃ c cs, itemsText (x :: xs) = c :: cs ∧ isSpace c = false ∧ c ≠ ']' := by
  obtain ⟨c, cs, text, bare, opens⟩ := exists_chars h
  cases xs with
  | nil => exact ⟨c, _, by rw [itemsText, text, List.cons_append], bare, opens⟩
  | cons y ys => exact ⟨c, _, by rw [itemsText, text, List.cons_append], bare, opens⟩

theorem exists_membersText (k : String) (x : Json) (ms : List (String × Json)) :
    ∃ cs, membersText ((k, x) :: ms) = '"' :: cs := by
  cases ms with
  | nil => exact ⟨_, rfl⟩
  | cons m ms => exact ⟨_, rfl⟩

/-- With so much fuel, texts of at most as many characters are read. -/
structure ReadsBack (fuel : Nat) : Prop where
  value : ∀ {v : Json} (rest : Input), v.isReadable = true → EndsNumber rest →
    (chars v).length ≤ fuel → readValue fuel ((chars v).map some ++ rest) = some (v, rest)
  items : ∀ {x : Json} {xs : List Json} (rest : Input), itemsAreReadable (x :: xs) = true →
    (itemsText (x :: xs)).length ≤ fuel →
      readItems fuel ((itemsText (x :: xs)).map some ++ rest) = some (x :: xs, rest)
  members : ∀ {k : String} {x : Json} {ms : List (String × Json)} (rest : Input),
    membersAreReadable ((k, x) :: ms) = true → (membersText ((k, x) :: ms)).length ≤ fuel →
      readMembers fuel ((membersText ((k, x) :: ms)).map some ++ rest) =
        some ((k, x) :: ms, true, rest)

theorem readItems_of_readsBack {x : Json} {xs : List Json} (H : ReadsBack fuel)
    (h : itemsAreReadable (x :: xs) = true) (enough : (itemsText (x :: xs)).length ≤ fuel + 1) :
    readItems (fuel + 1) ((itemsText (x :: xs)).map some ++ rest) = some (x :: xs, rest) := by
  rw [itemsAreReadable, Bool.and_eq_true] at h
  cases xs with
  | nil =>
    rw [itemsText, List.length_append] at enough
    have read := H.value (some ']' :: rest) h.1 ⟨rfl, by decide⟩ (by simpa using enough)
    rw [itemsText, List.map_append, List.append_assoc, readItems]
    simp only [List.map_cons, List.map_nil, List.cons_append, List.nil_append]
    rw [read]
    rfl
  | cons y ys =>
    rw [itemsText, List.length_append, List.length_cons] at enough
    have read := H.value (some ',' :: ((itemsText (y :: ys)).map some ++ rest)) h.1
      ⟨rfl, by decide⟩ (by omega)
    have later := H.items rest h.2 (by omega)
    rw [itemsText, List.map_append, List.append_assoc, List.map_cons, List.cons_append, readItems,
      read]
    simp only [Option.bind_eq_bind, Option.bind_some]
    rw [skipBlanks_cons rfl]
    simp only
    rw [later]
    rfl

/-- A member is read up to what follows its value. -/
theorem readMembers_of_value {k : String} {x : Json}
    (value : readValue fuel ((chars x).map some ++ s) = some (x, s)) :
    readMembers (fuel + 1) ((stringText k ++ ':' :: chars x).map some ++ s) =
      match skipBlanks s with
      | some ',' :: rest => do
        let (ms, sound, rest) ← readMembers fuel rest
        return ((k, x) :: ms, sound, rest)
      | some '}' :: rest => some ([(k, x)], true, rest)
      | _ => none := by
  have text : (stringText k ++ ':' :: chars x).map some ++ s =
      some '"' :: ((k.toList.flatMap charText).map some ++
        some '"' :: some ':' :: ((chars x).map some ++ s)) := by
    simp [stringText]
  rw [text, readMembers, skipBlanks_cons rfl]
  simp only [Option.bind_eq_bind]
  rw [stringTail_toList, Option.bind_some]
  simp only
  rw [skipBlanks_cons rfl]
  simp only
  rw [value, Option.bind_some]
  rfl

theorem readMembers_of_readsBack {k : String} {x : Json} {ms : List (String × Json)}
    (H : ReadsBack fuel) (h : membersAreReadable ((k, x) :: ms) = true)
    (enough : (membersText ((k, x) :: ms)).length ≤ fuel + 1) :
    readMembers (fuel + 1) ((membersText ((k, x) :: ms)).map some ++ rest) =
      some ((k, x) :: ms, true, rest) := by
  rw [membersAreReadable, Bool.and_eq_true] at h
  cases ms with
  | nil =>
    have text : (membersText [(k, x)]).map some ++ rest =
        (stringText k ++ ':' :: chars x).map some ++ some '}' :: rest := by
      simp [membersText]
    have length : (membersText [(k, x)]).length =
        (stringText k).length + (chars x).length + 2 := by
      simp [membersText, Nat.add_assoc]
    have read := H.value (some '}' :: rest) h.1 ⟨rfl, by decide⟩ (by omega)
    rw [text, readMembers_of_value read, skipBlanks_cons rfl]
    rfl
  | cons m ms =>
    obtain ⟨l, y⟩ := m
    have text : (membersText ((k, x) :: (l, y) :: ms)).map some ++ rest =
        (stringText k ++ ':' :: chars x).map some ++
          some ',' :: ((membersText ((l, y) :: ms)).map some ++ rest) := by
      simp [membersText]
    have length : (membersText ((k, x) :: (l, y) :: ms)).length =
        (stringText k).length + (chars x).length + (membersText ((l, y) :: ms)).length + 2 := by
      simp [membersText]
      omega
    have read := H.value (some ',' :: ((membersText ((l, y) :: ms)).map some ++ rest)) h.1
      ⟨rfl, by decide⟩ (by omega)
    have later := H.members rest h.2 (by omega)
    rw [text, readMembers_of_value read, skipBlanks_cons rfl]
    simp only
    rw [later]
    rfl

theorem readValue_of_readsBack {v : Json} (H : ReadsBack fuel) (h : v.isReadable = true)
    (ends : EndsNumber rest) (enough : (chars v).length ≤ fuel + 1) :
    readValue (fuel + 1) ((chars v).map some ++ rest) = some (v, rest) := by
  cases v with
  | null => rfl
  | bool b => cases b <;> rfl
  | number n => exact readValue_numberText (of_decide_eq_true h) ends fuel
  | broken => contradiction
  | string s =>
    have text : (chars (.string s)).map some ++ rest =
        some '"' :: ((s.toList.flatMap charText).map some ++ some '"' :: rest) := by
      simp [chars, stringText]
    rw [text, readValue, skipBlanks_cons rfl]
    simp only
    rw [stringTail_toList]
    rfl
  | array xs =>
    cases xs with
    | nil => rfl
    | cons x xs =>
      rw [isReadable] at h
      rw [chars, List.length_cons] at enough
      have read := H.items rest h (Nat.le_of_succ_le_succ enough)
      obtain ⟨c, cs, text, bare, opens⟩ := exists_itemsText xs (Bool.and_eq_true _ _ ▸ h).1
      rw [text, List.map_cons, List.cons_append] at read
      rw [chars, text, List.map_cons, List.map_cons, List.cons_append, List.cons_append, readValue,
        skipBlanks_cons rfl]
      simp only
      rw [skipBlanks_cons bare]
      split
      · rename_i same
        exact absurd (Option.some.inj (List.cons.inj same).1) opens
      · rw [read]
        rfl
  | object ms =>
    cases ms with
    | nil => rfl
    | cons m ms =>
      obtain ⟨k, x⟩ := m
      rw [isReadable] at h
      rw [chars, List.length_cons] at enough
      have read := H.members rest h (Nat.le_of_succ_le_succ enough)
      obtain ⟨cs, text⟩ := exists_membersText k x ms
      rw [text, List.map_cons, List.cons_append] at read
      rw [chars, text, List.map_cons, List.map_cons, List.cons_append, List.cons_append, readValue,
        skipBlanks_cons rfl]
      simp only
      rw [skipBlanks_cons rfl]
      split
      · rename_i same
        exact absurd (Option.some.inj (List.cons.inj same).1) (by decide)
      · rw [read]
        rfl

/-- No text is empty. -/
theorem readsBack_zero : ReadsBack 0 where
  value _ h _ enough := by
    obtain ⟨c, cs, text, -⟩ := exists_chars h
    rw [text] at enough
    contradiction
  items _ h enough := by
    obtain ⟨c, cs, text, -⟩ := exists_itemsText _ (Bool.and_eq_true _ _ ▸ h).1
    rw [text] at enough
    contradiction
  members _ _ enough := by
    obtain ⟨cs, text⟩ := exists_membersText _ _ _
    rw [text] at enough
    contradiction

theorem readsBack (fuel : Nat) : ReadsBack fuel := by
  induction fuel with
  | zero => exact readsBack_zero
  | succ fuel H =>
    exact ⟨fun _ => readValue_of_readsBack H, fun _ => readItems_of_readsBack H,
      fun _ => readMembers_of_readsBack H⟩

theorem ofInput?_chars {v : Json} (h : v.isReadable = true) :
    ofInput? (v.chars.map some) = some v := by
  have enough : v.chars.length ≤ 2 * (v.chars.map some).length + 2 := by
    rw [List.length_map]
    omega
  have read := (readsBack _).value [] h trivial enough
  rw [List.append_nil] at read
  rw [ofInput?, read]
  rfl

/-- **A document is read from its text**, if the reader takes every number in it for what it was
written for. -/
theorem parse?_render {v : Json} (h : v.isReadable = true) : parse? v.render = some v := by
  rw [parse?, render, String.toList_ofList, ofInput?_chars h]

theorem ofBytes?_bytes {v : Json} (h : v.isReadable = true) : ofBytes? v.bytes = some v := by
  have encoded : v.bytes = Text.Utf8.encode v.render := by
    rw [Text.Utf8.encode, render, String.toList_ofList, bytes]
  rw [ofBytes?, encoded, Text.Utf8.units_encode, render, String.toList_ofList, ofInput?_chars h]

end LeasePool.Json
