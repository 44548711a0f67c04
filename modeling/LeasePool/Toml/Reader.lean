import LeasePool.Text.Decimal
import LeasePool.Text.Scan
import LeasePool.Time.Date
import LeasePool.Toml.Basic

/-!
# Reading TOML

The grammar of TOML 1.0, read from characters. A document is read line by line, and the lines
are put together afterwards (`Toml.ofLines?`). Arrays and tables in braces nest up to a limit,
which dotted keys share.

## Main definitions

* `Toml.scalar?`, `Toml.value?`: values.
* `Toml.lines?`: the lines of a document.
* `Toml.parse?`: the table that a text holds.
-/

namespace LeasePool.Toml

/-- How deep arrays and tables in braces nest, and how many keys a dotted key joins. -/
def depthLimit : Nat := 79

/-! ## Characters -/

/-- A blank inside a line. -/
def isBlank (c : Char) : Bool := c = ' ' || c = '\t'

/-- A character of a comment or of a text between quotes, the quotes and the backslash not
considered. -/
def isTextual (c : Char) : Bool := c = '\t' || (' ' ≤ c && c ≠ '\x7f')

/-- A character of a key without quotes. -/
def isBare (c : Char) : Bool := c.isAlphanum || c = '-' || c = '_'

/-- The input after its leading blanks. -/
def skipBlanks (input : List Char) : List Char := input.dropWhile isBlank

/-- The input after a line end, if one comes first. -/
def newline? : List Char → Option (List Char)
  | '\n' :: rest => some rest
  | '\r' :: '\n' :: rest => some rest
  | _ => none

/-- The input after a comment, if one comes first. -/
def skipComment : List Char → List Char
  | '#' :: rest => rest.dropWhile isTextual
  | input => input

/-- The input after the end of a line: blanks, a comment and the line end. -/
def lineEnd? (input : List Char) : Option (List Char) :=
  match skipComment (skipBlanks input) with
  | [] => some []
  | rest => newline? rest

/-- The input after blanks, comments and line ends. -/
def skipLines (inComment : Bool) : List Char → List Char
  | '\n' :: rest => skipLines false rest
  | '\r' :: '\n' :: rest => skipLines false rest
  | c :: rest =>
    if inComment then if isTextual c then skipLines true rest else c :: rest
    else if isBlank c then skipLines false rest
    else if c = '#' then skipLines true rest
    else c :: rest
  | [] => []

/-! ## Texts -/

/-- The character with the code that hexadecimal digits denote. -/
def unicode? (digits : List Char) : Option Char := do
  let ds ← digits.mapM Text.hexDigit?
  let n := ds.foldl (fun n d => n * 16 + d) 0
  if n.isValidChar then some (Char.ofNat n) else none

/-- The character that a backslash and `c` stand for. -/
def escaped? : Char → Option Char
  | 'b' => some '\x08'
  | 't' => some '\t'
  | 'n' => some '\n'
  | 'f' => some '\x0c'
  | 'r' => some '\r'
  | '"' => some '"'
  | '\\' => some '\\'
  | _ => none

/-- Puts a character before a text that has been read. -/
def cons (c : Char) (result : List Char × List Char) : List Char × List Char :=
  (c :: result.1, result.2)

/-- The rest of a text after its double quote, and what follows the closing one. -/
def quotedTail : List Char → Option (List Char × List Char)
  | '"' :: rest => some ([], rest)
  | '\\' :: 'u' :: a :: b :: c :: d :: rest => do
    let c ← unicode? [a, b, c, d]
    (quotedTail rest).map (cons c)
  | '\\' :: 'U' :: a :: b :: c :: d :: e :: f :: g :: h :: rest => do
    let c ← unicode? [a, b, c, d, e, f, g, h]
    (quotedTail rest).map (cons c)
  | '\\' :: c :: rest => do
    let c ← escaped? c
    (quotedTail rest).map (cons c)
  | c :: rest => if isTextual c ∧ c ≠ '\\' then (quotedTail rest).map (cons c) else none
  | [] => none

/-- The rest of a text after its single quote, and what follows the closing one. Nothing is
escaped in it. -/
def verbatimTail : List Char → Option (List Char × List Char)
  | '\'' :: rest => some ([], rest)
  | c :: rest => if isTextual c then (verbatimTail rest).map (cons c) else none
  | [] => none

/-- Whether blanks and a line end come first. -/
def isLineRest (input : List Char) : Bool := (newline? (skipBlanks input)).isSome

/-- The rest of a text of several lines after its three double quotes, and what follows the
closing ones, which up to two quotes of the text may precede. A backslash at the end of a line
stands for nothing and takes the following blanks and line ends with it; `skipping` says that
this goes on. -/
def quotedLines (skipping : Bool) : List Char → Option (List Char × List Char)
  | '"' :: '"' :: '"' :: '"' :: '"' :: rest => some (['"', '"'], rest)
  | '"' :: '"' :: '"' :: '"' :: rest => some (['"'], rest)
  | '"' :: '"' :: '"' :: rest => some ([], rest)
  | '\n' :: rest =>
    if skipping then quotedLines true rest else (quotedLines false rest).map (cons '\n')
  | '\r' :: '\n' :: rest =>
    if skipping then quotedLines true rest else (quotedLines false rest).map (cons '\n')
  | '\\' :: 'u' :: a :: b :: c :: d :: rest => do
    let c ← unicode? [a, b, c, d]
    (quotedLines false rest).map (cons c)
  | '\\' :: 'U' :: a :: b :: c :: d :: e :: f :: g :: h :: rest => do
    let c ← unicode? [a, b, c, d, e, f, g, h]
    (quotedLines false rest).map (cons c)
  | '\\' :: c :: rest =>
    if isLineRest (c :: rest) then quotedLines true rest
    else do
      let c ← escaped? c
      (quotedLines false rest).map (cons c)
  | c :: rest =>
    if skipping && isBlank c then quotedLines true rest
    else if isTextual c ∧ c ≠ '\\' then (quotedLines false rest).map (cons c)
    else none
  | [] => none

/-- The rest of a text of several lines after its three single quotes, and what follows the
closing ones, which up to two quotes of the text may precede. -/
def verbatimLines : List Char → Option (List Char × List Char)
  | '\'' :: '\'' :: '\'' :: '\'' :: '\'' :: rest => some (['\'', '\''], rest)
  | '\'' :: '\'' :: '\'' :: '\'' :: rest => some (['\''], rest)
  | '\'' :: '\'' :: '\'' :: rest => some ([], rest)
  | '\n' :: rest => (verbatimLines rest).map (cons '\n')
  | '\r' :: '\n' :: rest => (verbatimLines rest).map (cons '\n')
  | c :: rest => if isTextual c then (verbatimLines rest).map (cons c) else none
  | [] => none

/-- The input after a line end, if one comes first, and the input itself otherwise. -/
def dropNewline (input : List Char) : List Char := (newline? input).getD input

/-- A text between quotes of any kind. -/
def string? : List Char → Option (List Char × List Char)
  | '"' :: '"' :: '"' :: rest => quotedLines false (dropNewline rest)
  | '\'' :: '\'' :: '\'' :: rest => verbatimLines (dropNewline rest)
  | '"' :: rest => quotedTail rest
  | '\'' :: rest => verbatimTail rest
  | _ => none

/-! ## Numbers and dates -/

/-- Digits with single underscores between them, the underscores left out, and what follows. -/
def digitTail (isDigit : Char → Bool) : List Char → List Char × List Char
  | '_' :: d :: rest =>
    if isDigit d then cons d (digitTail isDigit rest) else ([], '_' :: d :: rest)
  | d :: rest => if isDigit d then cons d (digitTail isDigit rest) else ([], d :: rest)
  | [] => ([], [])

/-- One or more digits with single underscores between them. -/
def digits? (isDigit : Char → Bool) : List Char → Option (List Char × List Char)
  | d :: rest => if isDigit d then some (cons d (digitTail isDigit rest)) else none
  | [] => none

/-- The sign of a number, and what follows. -/
def sign : List Char → Bool × List Char
  | '-' :: rest => (true, rest)
  | '+' :: rest => (false, rest)
  | input => (false, input)

/-- A whole number without sign and without leading zeros. -/
def whole? : List Char → Option (List Char × List Char)
  | '0' :: rest => some (['0'], rest)
  | input => digits? Char.isDigit input

/-- The number that digits of a base denote, if it is a signed 64-bit integer. -/
def ofDigits? (base : Nat) (negative : Bool) (digits : List Char) : Option Item := do
  let ds ← digits.mapM Text.hexDigit?
  let n := ds.foldl (fun n d => n * base + d) 0
  if negative then if n ≤ Nat.pow 2 63 then some (.integer (-(n : Int))) else none
  else if n < Nat.pow 2 63 then some (.integer n) else none

/-- An integer. -/
def integer? (input : List Char) : Option (Item × List Char) := do
  let based (base : Nat) (isDigit : Char → Bool) (rest : List Char) := do
    let (ds, rest) ← digits? isDigit rest
    let n ← ofDigits? base false ds
    return (n, rest)
  match input with
  | '0' :: 'x' :: rest => based 16 (fun c => (Text.hexDigit? c).isSome) rest
  | '0' :: 'o' :: rest => based 8 (fun c => '0' ≤ c && c ≤ '7') rest
  | '0' :: 'b' :: rest => based 2 (fun c => c = '0' || c = '1') rest
  | input =>
    let (negative, rest) := sign input
    let (ds, rest) ← whole? rest
    let n ← ofDigits? 10 negative ds
    return (n, rest)

/-- The exponent of a float, and what follows. -/
def exponent? : List Char → Option (Int × List Char)
  | c :: rest =>
    if c = 'e' ∨ c = 'E' then do
      let (negative, rest) := sign rest
      let (ds, rest) ← digits? Char.isDigit rest
      let n : Int := Nat.ofDigitChars 10 ds 0
      return (if negative then -n else n, rest)
    else none
  | [] => none

/-- The part of the input before `rest`. -/
def textBefore (input rest : List Char) : String :=
  String.ofList (input.take (input.length - rest.length))

/-- The fraction and the exponent of a float, of which one may be missing, and what follows. -/
def fractional? : List Char → Option ((List Char × Int) × List Char)
  | '.' :: rest => do
    let (fraction, rest) ← digits? Char.isDigit rest
    match rest with
    | 'e' :: _ | 'E' :: _ =>
      let (exponent, rest) ← exponent? rest
      return ((fraction, exponent), rest)
    | _ => return ((fraction, 0), rest)
  | rest => do
    let (exponent, rest) ← exponent? rest
    return (([], exponent), rest)

/-- A float: a whole number with a fraction, an exponent or both, infinity, or no number. A
positive one that is beyond every double is refused. -/
def float? (input : List Char) : Option (Item × List Char) := do
  let (negative, unsigned) := sign input
  match unsigned with
  | 'i' :: 'n' :: 'f' :: rest => return (.float (textBefore input rest), rest)
  | 'n' :: 'a' :: 'n' :: rest => return (.float (textBefore input rest), rest)
  | _ =>
    let (whole, rest) ← whole? unsigned
    let ((fraction, exponent), rest) ← fractional? rest
    let digits := Nat.ofDigitChars 10 (whole ++ fraction) 0
    if ¬negative ∧ Text.exceedsDouble digits (exponent - fraction.length) then none
    else return (.float (textBefore input rest), rest)

/-- A number of two digits below `bound`. -/
def twoDigits? (bound : Nat) : List Char → Option (Nat × List Char)
  | a :: b :: rest => do
    let n ← Text.digits? [a, b]
    if n < bound then some (n, rest) else none
  | _ => none

/-- The input after a time of the day. -/
def time? (input : List Char) : Option (List Char) := do
  let (_, rest) ← twoDigits? 24 input
  let (_, rest) ← twoDigits? 60 (← Text.after? ':' rest)
  let (_, rest) ← twoDigits? 61 (← Text.after? ':' rest)
  match rest with
  | '.' :: rest =>
    if (rest.takeWhile Char.isDigit).isEmpty then none else some (rest.dropWhile Char.isDigit)
  | rest => some rest

/-- The input after a distance from UTC, if one comes first. -/
def zone? : List Char → Option (List Char)
  | 'Z' :: rest | 'z' :: rest => some rest
  | '+' :: rest | '-' :: rest => do
    let (_, rest) ← twoDigits? 24 rest
    let (_, rest) ← twoDigits? 60 (← Text.after? ':' rest)
    return rest
  | input => some input

/-- The input after a calendar date. -/
def calendarDate? : List Char → Option (List Char)
  | a :: b :: c :: d :: '-' :: rest => do
    let year ← Text.digits? [a, b, c, d]
    let (month, rest) ← twoDigits? 13 rest
    let (day, rest) ← twoDigits? 32 (← Text.after? '-' rest)
    if (Date.mk year month day).isValid then some rest else none
  | _ => none

/-- A date, a time of the day, or both, then possibly with a distance from UTC. -/
def date? (input : List Char) : Option (Item × List Char) := do
  let rest ← match calendarDate? input with
    | none => time? input
    | some rest =>
      match rest with
      | c :: afterDate =>
        if c = 'T' ∨ c = 't' ∨ c = ' ' then
          match time? afterDate with
          | some rest => zone? rest
          | none => some rest
        else some rest
      | [] => some rest
  return (.date (textBefore input rest), rest)

/-! ## Keys and values -/

/-- A single key. -/
def key? : List Char → Option (String × List Char)
  | '"' :: rest => (quotedTail rest).map fun (s, rest) => (String.ofList s, rest)
  | '\'' :: rest => (verbatimTail rest).map fun (s, rest) => (String.ofList s, rest)
  | input =>
    match input.takeWhile isBare with
    | [] => none
    | s => some (String.ofList s, input.dropWhile isBare)

/-- Up to `limit` keys with points between them, and blanks around each. -/
def dottedKey? : (limit : Nat) → List Char → Option (DottedKey × List Char)
  | 0, _ => none
  | limit + 1, input => do
    let (key, rest) ← key? (skipBlanks input)
    match skipBlanks rest with
    | '.' :: rest =>
      let (inner, rest) ← dottedKey? limit rest
      return (⟨key :: inner.outer, inner.last⟩, rest)
    | rest => return (⟨[], key⟩, rest)

/-- A value that is neither an array nor a table. -/
def scalar? (input : List Char) : Option (Item × List Char) :=
  match input with
  | '"' :: _ | '\'' :: _ => (string? input).map fun (s, rest) => (.string (String.ofList s), rest)
  | 't' :: rest => (Text.afterWord? ['r', 'u', 'e'] rest).map (.boolean true, ·)
  | 'f' :: rest => (Text.afterWord? ['a', 'l', 's', 'e'] rest).map (.boolean false, ·)
  | input => ((date? input).or (float? input)).or (integer? input)

/-- The elements of an array and its closing bracket. `fuel` bounds their number. -/
def elements? (read : List Char → Option (Item × List Char)) :
    (fuel : Nat) → List Char → Option (List Item × List Char)
  | 0, _ => none
  | fuel + 1, input =>
    match skipLines false input with
    | ']' :: rest => some ([], rest)
    | input => do
      let (x, rest) ← read input
      match skipLines false rest with
      | ',' :: rest =>
        let (xs, rest) ← elements? read fuel rest
        return (x :: xs, rest)
      | ']' :: rest => return ([x], rest)
      | _ => none

/-- The pairs of a table in braces and the closing brace. `fuel` bounds their number. -/
def pairs? (read : List Char → Option (Item × List Char)) :
    (fuel : Nat) → List Char → Option (List (DottedKey × Item) × List Char)
  | 0, _ => none
  | fuel + 1, input => do
    let (key, rest) ← dottedKey? depthLimit input
    let (x, rest) ← read (skipBlanks (← Text.after? '=' rest))
    match skipBlanks rest with
    | ',' :: rest =>
      let (xs, rest) ← pairs? read fuel rest
      return ((key, x) :: xs, rest)
    | '}' :: rest => return ([(key, x)], rest)
    | _ => none

/-- A table in braces after the opening one. -/
def braces? (read : List Char → Option (Item × List Char)) (input : List Char) :
    Option (Item × List Char) :=
  match skipBlanks input with
  | '}' :: rest => some (.table .braces [], rest)
  | _ => do
    let (pairs, rest) ← pairs? read (input.length + 1) input
    let item ← inBraces? pairs
    return (item, rest)

/-- A value that nests up to `depth` arrays and tables. -/
def value? : (depth : Nat) → List Char → Option (Item × List Char)
  | 0, input => scalar? input
  | depth + 1, input =>
    match input with
    | '[' :: rest => (elements? (value? depth) (rest.length + 1) rest).map fun (xs, rest) =>
        (.array xs, rest)
    | '{' :: rest => braces? (value? depth) rest
    | input => scalar? input

/-! ## Documents -/

/-- A line that is neither blank nor a comment, and what follows its end. -/
def line? (input : List Char) : Option (Line × List Char) :=
  match input with
  | '[' :: '[' :: rest => do
    let (key, rest) ← dottedKey? depthLimit rest
    let rest ← lineEnd? (← Text.after? ']' (← Text.after? ']' rest))
    return (.row key, rest)
  | '[' :: rest => do
    let (key, rest) ← dottedKey? depthLimit rest
    let rest ← lineEnd? (← Text.after? ']' rest)
    return (.header key, rest)
  | input => do
    let (key, rest) ← dottedKey? depthLimit input
    let (x, rest) ← value? depthLimit (skipBlanks (← Text.after? '=' rest))
    return (.entry key x, ← lineEnd? rest)

/-- The lines of a document that are neither blank nor comments. `fuel` bounds the number of all
lines. -/
def lines? : (fuel : Nat) → List Char → Option (List Line)
  | 0, _ => none
  | fuel + 1, input =>
    match skipBlanks input with
    | [] => some []
    | c :: rest =>
      if c = '#' ∨ c = '\n' ∨ c = '\r' then do
        lines? fuel (← lineEnd? (c :: rest))
      else do
        let (line, rest) ← line? (c :: rest)
        let lines ← lines? fuel rest
        return line :: lines

/-- The text without a byte order mark in front. -/
def dropMark : List Char → List Char
  | '\uFEFF' :: rest => rest
  | input => input

/-- The table that a text holds. -/
def parse? (text : String) : Option Members := do
  let input := dropMark text.toList
  ofLines? (← lines? (input.length + 1) input)

end LeasePool.Toml
