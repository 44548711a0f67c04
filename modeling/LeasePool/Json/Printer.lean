import LeasePool.Json.Basic
import LeasePool.Text.Double

/-!
# Writing JSON

The one written form of each document, without blanks. Text is written as it is, with a
backslash before quotes and backslashes and with escapes for the control characters.
-/

namespace LeasePool.Json

/-- The written form of a character inside a string. -/
def charText (c : Char) : List Char :=
  if c = '"' then ['\\', '"']
  else if c = '\\' then ['\\', '\\']
  else if c = '\n' then ['\\', 'n']
  else if c = '\r' then ['\\', 'r']
  else if c = '\t' then ['\\', 't']
  else if c = '\x08' then ['\\', 'b']
  else if c = '\x0c' then ['\\', 'f']
  else if c < ' ' then
    ['\\', 'u', '0', '0', (c.toNat / 16).digitChar, (c.toNat % 16).digitChar]
  else [c]

/-- The written form of a string. -/
def stringText (s : String) : List Char :=
  '"' :: s.toList.flatMap charText ++ ['"']

/-- The written form of a number. -/
def numberText : Number → List Char
  | .integer n => Text.signed n
  | .double f => Text.double f

mutual
/-- The written form of a document. A broken piece has none, and null stands in its place. -/
def chars : Json → List Char
  | .null | .broken => ['n', 'u', 'l', 'l']
  | .bool true => ['t', 'r', 'u', 'e']
  | .bool false => ['f', 'a', 'l', 's', 'e']
  | .number n => numberText n
  | .string s => stringText s
  | .array items => '[' :: itemsText items
  | .object members => '{' :: membersText members
/-- The elements of an array and its closing bracket. -/
def itemsText : List Json → List Char
  | [] => [']']
  | [x] => chars x ++ [']']
  | x :: y :: rest => chars x ++ ',' :: itemsText (y :: rest)
/-- The members of an object and its closing brace. -/
def membersText : List (String × Json) → List Char
  | [] => ['}']
  | [(k, x)] => stringText k ++ ':' :: chars x ++ ['}']
  | (k, x) :: m :: rest => stringText k ++ ':' :: chars x ++ ',' :: membersText (m :: rest)
end

/-- The written form of a document. -/
def render (json : Json) : String :=
  String.ofList (chars json)

/-- The bytes of the written form of a document. -/
def bytes (json : Json) : List UInt8 :=
  (chars json).flatMap String.utf8EncodeChar

end LeasePool.Json
