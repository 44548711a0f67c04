import LeasePool.Json.Basic
import LeasePool.Text.Double
import LeasePool.Text.Utf8

/-!
# Reading JSON

The grammar of RFC 8259, read from characters and malformed parts of bytes (`Utf8.units`). The
reader takes documents of any depth; what it takes for `Json.broken` is correct syntax, so that
a value nobody asks for does no harm.
-/

namespace LeasePool.Json

/-- A character of the input, or `none` for bytes that are not UTF-8. -/
abbrev Input := List (Option Char)

/-- The input after its leading blanks. -/
def skipBlanks : Input → Input
  | some c :: rest =>
    if c = ' ' ∨ c = '\n' ∨ c = '\t' ∨ c = '\r' then skipBlanks rest else some c :: rest
  | input => input

/-! ## Numbers -/

/-- The leading digits of the input, and what follows them. -/
def spanDigits : Input → List Char × Input
  | some c :: rest =>
    if c.isDigit then
      let (ds, rest) := spanDigits rest
      (c :: ds, rest)
    else ([], some c :: rest)
  | input => ([], input)

/-- One or more digits, and what follows them. -/
def digits? (input : Input) : Option (List Char × Input) :=
  match spanDigits input with
  | ([], _) => none
  | (ds, rest) => some (ds, rest)

/-- The whole part of a number: a zero, or digits that do not begin with one. -/
def wholePart : Input → Option (List Char × Input)
  | some '0' :: rest => some (['0'], rest)
  | input => digits? input

/-- The fraction of a number, if one follows: a point and digits. -/
def fractionPart : Input → Option (Option (List Char) × Input)
  | some '.' :: rest => (digits? rest).map fun (ds, rest) => (some ds, rest)
  | input => some (none, input)

/-- Whether a minus sign follows, and the input after a sign. -/
def exponentSign : Input → Bool × Input
  | some '-' :: rest => (true, rest)
  | some '+' :: rest => (false, rest)
  | input => (false, input)

/-- The exponent part of a number, if one follows: `e`, an optional sign and digits. -/
def exponentPart : Input → Option (Option Int × Input)
  | some c :: rest =>
    if c = 'e' ∨ c = 'E' then
      let (negative, rest) := exponentSign rest
      (digits? rest).map fun (ds, rest) =>
        let n : Int := Nat.ofDigitChars 10 ds 0
        (some (if negative then -n else n), rest)
    else some (none, some c :: rest)
  | input => some (none, input)

/-- The double of a sign, a number of 64 bits and an exponent of ten. -/
def ofParts (negative : Bool) (n : Nat) (exponent : Int) : Json :=
  match Text.scale? (Nat.toFloat n) exponent with
  | some f => .number (.double (if negative then -f else f))
  | none => .broken

/-- The number of a sign, the digits before and after a point, and an exponent of ten. Digits
before the point that do not fit into 64 bits count as zeros, and such digits after it as none. -/
def ofScientific (negative : Bool) (whole fraction : List Char) (exponent : Int) : Json :=
  let (n, dropped) := Text.gather 0 whole
  let (n, ignored) := Text.gather n fraction
  ofParts negative n (exponent + dropped.length - (fraction.length - ignored.length : Nat))

/-- The number of a sign and digits without fraction or exponent. -/
def ofWhole (negative : Bool) (digits : List Char) : Json :=
  match Text.gather 0 digits with
  | (n, []) =>
    if negative then
      if n ≠ 0 ∧ n ≤ Nat.pow 2 63 then .number (.integer (-(n : Int))) else ofParts true n 0
    else .number (.integer n)
  | (n, dropped) => ofParts negative n dropped.length

/-- A number without its sign, and what follows it. -/
def unsignedNumber (negative : Bool) (input : Input) : Option (Json × Input) := do
  let (whole, rest) ← wholePart input
  let (fraction, rest) ← fractionPart rest
  let (exponent, rest) ← exponentPart rest
  match fraction, exponent with
  | none, none => some (ofWhole negative whole, rest)
  | fraction, exponent =>
    some (ofScientific negative whole (fraction.getD []) (exponent.getD 0), rest)

/-! ## Strings -/

/-- The value of four hexadecimal digits. -/
def hex4? (a b c d : Option Char) : Option Nat := do
  let a ← Text.hexDigit? (← a)
  let b ← Text.hexDigit? (← b)
  let c ← Text.hexDigit? (← c)
  let d ← Text.hexDigit? (← d)
  return ((a * 16 + b) * 16 + c) * 16 + d

/-- The character that a backslash and `c` stand for. -/
def escaped? : Char → Option Char
  | '"' => some '"'
  | '\\' => some '\\'
  | '/' => some '/'
  | 'b' => some '\x08'
  | 'f' => some '\x0c'
  | 'n' => some '\n'
  | 'r' => some '\r'
  | 't' => some '\t'
  | _ => none

/-- How far a string has been read: its characters in reverse, the high half of a surrogate pair
whose low half has to come next, and whether every piece so far denotes a character. -/
structure Draft where
  chars : List Char := []
  high : Option Nat := none
  sound : Bool := true

/-- Adds a character. -/
def Draft.push (draft : Draft) (c : Char) : Draft :=
  ⟨c :: draft.chars, none, draft.sound && draft.high.isNone⟩

/-- Adds a piece that denotes no character. -/
def Draft.spoil (draft : Draft) : Draft :=
  { draft with high := none, sound := false }

/-- Adds a 16-bit code unit. -/
def Draft.pushUnit (draft : Draft) (n : Nat) : Draft :=
  if 0xD800 ≤ n ∧ n < 0xDC00 then
    { draft with high := some n, sound := draft.sound && draft.high.isNone }
  else if 0xDC00 ≤ n ∧ n < 0xE000 then
    match draft.high with
    | some high =>
      let code := 0x10000 + (high - 0xD800) * 0x400 + (n - 0xDC00)
      ⟨Char.ofNat code :: draft.chars, none, draft.sound⟩
    | none => draft.spoil
  else draft.push (Char.ofNat n)

/-- The text read, if every piece of it denotes a character. -/
def Draft.text? (draft : Draft) : Option String :=
  if draft.sound && draft.high.isNone then some (String.ofList draft.chars.reverse) else none

/-- The rest of a string after its opening quote: its text, and what follows the closing one. -/
def stringTail (draft : Draft) : Input → Option (Option String × Input)
  | some '"' :: rest => some (draft.text?, rest)
  | some '\\' :: some 'u' :: a :: b :: c :: d :: rest => do
    let n ← hex4? a b c d
    stringTail (draft.pushUnit n) rest
  | some '\\' :: some c :: rest => do
    let c ← escaped? c
    stringTail (draft.push c) rest
  | some c :: rest => if c < ' ' ∨ c = '\\' then none else stringTail (draft.push c) rest
  | none :: rest => stringTail draft.spoil rest
  | [] => none

/-! ## Documents -/

/-- The input after `word`, if it begins so. -/
def afterWord : List Char → Input → Option Input
  | [], rest => some rest
  | c :: word, some d :: rest => if c = d then afterWord word rest else none
  | _ :: _, _ => none

mutual
/-- A value, and what follows it. -/
def readValue : (fuel : Nat) → Input → Option (Json × Input)
  | 0, _ => none
  | fuel + 1, input =>
    match skipBlanks input with
    | some '{' :: rest =>
      match skipBlanks rest with
      | some '}' :: rest => some (.object [], rest)
      | rest => (readMembers fuel rest).map fun (ms, sound, rest) =>
          (if sound then .object ms else .broken, rest)
    | some '[' :: rest =>
      match skipBlanks rest with
      | some ']' :: rest => some (.array [], rest)
      | rest => (readItems fuel rest).map fun (xs, rest) => (.array xs, rest)
    | some '"' :: rest => (stringTail {} rest).map fun (s, rest) =>
        (match s with | some s => .string s | none => .broken, rest)
    | some '-' :: rest => unsignedNumber true rest
    | some 'n' :: rest => (afterWord ['u', 'l', 'l'] rest).map (.null, ·)
    | some 't' :: rest => (afterWord ['r', 'u', 'e'] rest).map (.bool true, ·)
    | some 'f' :: rest => (afterWord ['a', 'l', 's', 'e'] rest).map (.bool false, ·)
    | rest => unsignedNumber false rest
/-- The elements of an array and its closing bracket. -/
def readItems : (fuel : Nat) → Input → Option (List Json × Input)
  | 0, _ => none
  | fuel + 1, input => do
    let (x, rest) ← readValue fuel input
    match skipBlanks rest with
    | some ',' :: rest =>
      let (xs, rest) ← readItems fuel rest
      return (x :: xs, rest)
    | some ']' :: rest => return ([x], rest)
    | _ => none
/-- The members of an object and its closing brace, and whether every key is a text. -/
def readMembers : (fuel : Nat) → Input → Option (List (String × Json) × Bool × Input)
  | 0, _ => none
  | fuel + 1, input =>
    match skipBlanks input with
    | some '"' :: rest => do
      let (key, rest) ← stringTail {} rest
      match skipBlanks rest with
      | some ':' :: rest =>
        let (x, rest) ← readValue fuel rest
        match skipBlanks rest with
        | some ',' :: rest =>
          let (ms, sound, rest) ← readMembers fuel rest
          return ((key.getD "", x) :: ms, key.isSome && sound, rest)
        | some '}' :: rest => return ([(key.getD "", x)], key.isSome, rest)
        | _ => none
      | _ => none
    | _ => none
end

/-- The document that the input holds, with nothing but blanks around it. Every call of the
readers above but the first stands behind a character of its own, or behind one that its caller
shares with no third, which bounds their depth. -/
def ofInput? (input : Input) : Option Json := do
  let (json, rest) ← readValue (2 * input.length + 2) input
  if (skipBlanks rest).isEmpty then some json else none

/-- The document that a text holds. -/
def parse? (s : String) : Option Json :=
  ofInput? (s.toList.map some)

/-- The document that a row of bytes holds. -/
def ofBytes? (bytes : List UInt8) : Option Json :=
  ofInput? (Text.Utf8.units bytes)

end LeasePool.Json
