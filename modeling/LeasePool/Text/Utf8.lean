/-!
# UTF-8

Bytes to characters. A malformed part is cut where a correct reading first becomes impossible:
the longest run of bytes that begins some character counts as one part, and so does a byte that
begins none. Strict reading refuses malformed parts; lenient reading puts U+FFFD in their place,
one for each.
-/

namespace LeasePool.Text.Utf8

/-- Where a reader stands: between characters, or inside one of which `value` holds the bits
read so far, with `more + 1` bytes still to come and the next one between `low` and `high`. -/
inductive Place where
  | between
  | inside (value more low high : Nat)

/-- What the first byte of a character announces; `none` for a byte that begins none. -/
def opening (b : Nat) : Option Place :=
  if 0xC2 ≤ b ∧ b ≤ 0xDF then some (.inside (b - 0xC0) 0 0x80 0xBF)
  else if b = 0xE0 then some (.inside 0 1 0xA0 0xBF)
  else if b = 0xED then some (.inside 0xD 1 0x80 0x9F)
  else if 0xE1 ≤ b ∧ b ≤ 0xEF then some (.inside (b - 0xE0) 1 0x80 0xBF)
  else if b = 0xF0 then some (.inside 0 2 0x90 0xBF)
  else if 0xF1 ≤ b ∧ b ≤ 0xF3 then some (.inside (b - 0xF0) 2 0x80 0xBF)
  else if b = 0xF4 then some (.inside 4 2 0x80 0x8F)
  else none

/-- Reads one byte: the units that it completes, and the place after it. -/
def feed (place : Place) (b : Nat) : List (Option Char) × Place :=
  let start : List (Option Char) × Place :=
    if b < 0x80 then ([some (Char.ofNat b)], .between)
    else match opening b with
      | some inside => ([], inside)
      | none => ([none], .between)
  match place with
  | .between => start
  | .inside value more low high =>
    if low ≤ b ∧ b ≤ high then
      let value := value * 64 + (b - 0x80)
      match more with
      | 0 => ([some (Char.ofNat value)], .between)
      | more + 1 => ([], .inside value more 0x80 0xBF)
    else (none :: start.1, start.2)

/-- The units of the bytes that follow `place`: a character, or `none` for a malformed part. -/
def unitsFrom : Place → List UInt8 → List (Option Char)
  | .between, [] => []
  | .inside .., [] => [none]
  | place, b :: rest =>
    let (done, place) := feed place b.toNat
    done ++ unitsFrom place rest

/-- The characters and malformed parts of `bytes` in order. -/
def units (bytes : List UInt8) : List (Option Char) :=
  unitsFrom .between bytes

/-- The text of well-formed bytes. -/
def decode? (bytes : List UInt8) : Option String :=
  ((units bytes).mapM id).map String.ofList

/-- The text of `bytes`, with U+FFFD for each malformed part. -/
def decodeLossy (bytes : List UInt8) : String :=
  String.ofList ((units bytes).map fun u => u.getD '\uFFFD')

/-- The bytes of a text. -/
def encode (s : String) : List UInt8 :=
  s.toList.flatMap String.utf8EncodeChar

end LeasePool.Text.Utf8
