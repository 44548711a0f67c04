/-!
# Scanning

The first step of readers: what follows an expected beginning.
-/

namespace LeasePool.Text

/-- The text after a character, if it begins so. -/
def after? (c : Char) : List Char → Option (List Char)
  | d :: rest => if d = c then some rest else none
  | [] => none

/-- The text after a word, if it begins so. -/
def afterWord? : (word : List Char) → List Char → Option (List Char)
  | [], rest => some rest
  | c :: word, rest => (after? c rest).bind (afterWord? word)

end LeasePool.Text
