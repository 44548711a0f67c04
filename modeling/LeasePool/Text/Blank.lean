/-!
# Blank text

The characters with the Unicode property `White_Space`, and the removal of such characters from
the two ends of a text. Everything in this library that asks whether a text is blank, or cuts
the blanks off a text, asks it here, so that a holder, a namespace and a pool name are judged
alike.
-/

namespace LeasePool.Text

/-- Whether `c` has the Unicode property `White_Space`. -/
def isBlank (c : Char) : Bool :=
  let n := c.toNat
  (0x09 ≤ n && n ≤ 0x0D) || n == 0x20 || n == 0x85 || n == 0xA0 || n == 0x1680
    || (0x2000 ≤ n && n ≤ 0x200A) || n == 0x2028 || n == 0x2029 || n == 0x202F
    || n == 0x205F || n == 0x3000

/-- The characters without the blanks at their two ends. -/
def trimChars (s : List Char) : List Char :=
  ((s.dropWhile isBlank).reverse.dropWhile isBlank).reverse

/-- The text without the blanks at its two ends. -/
def trim (s : String) : String :=
  String.ofList (trimChars s.toList)

/-- Whether the text consists of blanks, the empty text included. -/
def isBlankText (s : String) : Bool :=
  s.toList.all isBlank

/-- The trimmed text, unless nothing is left of it. -/
def nonBlank? (s : String) : Option String :=
  if isBlankText s then none else some (trim s)

/-- Nothing is left of a text exactly when all of it is blank. -/
theorem trimChars_eq_nil_iff {s : List Char} : trimChars s = [] ↔ s.all isBlank = true := by
  have drop (l : List Char) : l.dropWhile isBlank = [] ↔ l.all isBlank = true := by
    induction l with
    | nil => simp
    | cons c l ih => by_cases h : isBlank c <;> simp [h, ih]
  simp only [trimChars, List.reverse_eq_nil_iff, drop, List.all_reverse]
  induction s with
  | nil => simp
  | cons c l ih => by_cases h : isBlank c <;> simp [h, ih]

/-- Trimming leaves nothing exactly of a blank text. -/
theorem trim_eq_empty_iff {s : String} : trim s = "" ↔ isBlankText s = true := by
  rw [trim, isBlankText, ← trimChars_eq_nil_iff, ← String.toList_inj]
  simp

end LeasePool.Text
