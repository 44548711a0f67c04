import LeasePool.Text.Decimal

/-!
# Writing TOML

Tables of texts, numbers and truth values, each under a header of its own. Of the five ways to
write a text the first is taken that shows it as it is: between double quotes, between single
quotes, and the same for several lines. If none does, the text is written with escapes.
-/

namespace LeasePool.Toml

/-- A way to write a text: with escapes or as it is, in one line or in several. -/
inductive Style where
  | quoted
  | verbatim
  | quotedLines
  | verbatimLines
  deriving DecidableEq, Repr

/-- A control character other than the tab and the line feed. -/
def isControl (c : Char) : Bool := (c < ' ' && c ≠ '\t' && c ≠ '\n') || c = '\x7f'

/-- Whether `c` occurs three times in a row. -/
def hasTriple (c : Char) : List Char → Bool
  | x :: y :: z :: rest => (x = c && y = c && z = c) || hasTriple c (y :: z :: rest)
  | _ => false

/-- The way in which a text is written. -/
def style (s : List Char) : Style :=
  let plain := !s.any isControl
  let lines := s.contains '\n'
  let slashes := s.contains '\\'
  if plain && !lines && !slashes && !s.contains '"' then .quoted
  else if plain && !lines && !s.contains '\'' then .verbatim
  else if plain && !slashes && !hasTriple '"' s then .quotedLines
  else if plain && !hasTriple '\'' s then .verbatimLines
  else if lines then .quotedLines
  else .quoted

/-- A character between double quotes. -/
def escapedChar (c : Char) : List Char :=
  if c = '\x08' then ['\\', 'b']
  else if c = '\t' then ['\\', 't']
  else if c = '\n' then ['\\', 'n']
  else if c = '\x0c' then ['\\', 'f']
  else if c = '\r' then ['\\', 'r']
  else if c = '"' then ['\\', '"']
  else if c = '\\' then ['\\', '\\']
  else if isControl c then
    ['\\', 'u', '0', '0', Text.upperDigit (c.toNat / 16), Text.upperDigit (c.toNat % 16)]
  else [c]

/-- A text between three double quotes, of which `quotes` have just been written one after the
other. The third one in a row is escaped, so that it does not end the text. -/
def escapedLines (quotes : Nat) : List Char → List Char
  | [] => []
  | c :: rest =>
    if c = '"' then
      if quotes = 2 then '\\' :: '"' :: escapedLines 0 rest
      else '"' :: escapedLines (quotes + 1) rest
    else if c = '\n' then '\n' :: escapedLines 0 rest
    else escapedChar c ++ escapedLines 0 rest

/-- The written form of a text. Several lines begin on a line of their own. -/
def stringText (s : List Char) : List Char :=
  let opening := if s.contains '\n' then ['\n'] else []
  match style s with
  | .quoted => '"' :: s.flatMap escapedChar ++ ['"']
  | .verbatim => '\'' :: s ++ ['\'']
  | .quotedLines => ['"', '"', '"'] ++ opening ++ escapedLines 0 s ++ ['"', '"', '"']
  | .verbatimLines => ['\'', '\'', '\''] ++ opening ++ s ++ ['\'', '\'', '\'']

/-- A value that is neither an array nor a table. -/
inductive Scalar where
  | string (value : String)
  | integer (value : Int)
  | boolean (value : Bool)
  deriving DecidableEq, Repr

/-- The written form of a value. -/
def Scalar.text : Scalar → List Char
  | string s => stringText s.toList
  | integer n => Text.signed n
  | boolean true => ['t', 'r', 'u', 'e']
  | boolean false => ['f', 'a', 'l', 's', 'e']

/-- A table: the keys that lead to it, none for the document itself, and its values. The keys
need no quotes. -/
structure Section where
  path : List String
  entries : List (String × Scalar)
  deriving DecidableEq, Repr

/-- The line of a value. -/
def entryText (entry : String × Scalar) : List Char :=
  entry.1.toList ++ [' ', '=', ' '] ++ entry.2.text ++ ['\n']

/-- The header of a table, and its lines. -/
def Section.text (s : Section) : List Char :=
  let header :=
    if s.path = [] then []
    else '[' :: ['.'].intercalate (s.path.map String.toList) ++ [']', '\n']
  header ++ s.entries.flatMap entryText

/-- The text of a document, with an empty line between its tables. -/
def render (sections : List Section) : String :=
  String.ofList (['\n'].intercalate (sections.map Section.text))

end LeasePool.Toml
