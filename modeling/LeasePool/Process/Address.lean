import LeasePool.Text.Decimal
import LeasePool.Text.Scan

/-!
# Socket addresses

The text of an address at which a server listens: four numbers with points between them, or
groups of hexadecimal digits with colons between them in brackets, and a port.
-/

namespace LeasePool

/-- An address of a host. -/
inductive HostAddress where
  | v4 (bytes : List Nat)
  /-- Eight groups of sixteen bits, and the number of an interface. -/
  | v6 (groups : List Nat) (scope : Nat)
  deriving DecidableEq, Repr

/-- An address and a port. -/
structure SocketAddress where
  host : HostAddress
  port : Nat
  deriving DecidableEq, Repr

namespace SocketAddress

/-- A number, and what follows it: at most `width` digits, and none after a zero unless
`zeros`. -/
def number? (base width bound : Nat) (zeros : Bool) (s : List Char) :
    Option (Nat × List Char) :=
  let isDigit (c : Char) : Bool := (Text.hexDigit? c).any (· < base)
  let digits := s.takeWhile isDigit
  let value := digits.foldl (fun n c => n * base + (Text.hexDigit? c).getD 0) 0
  if digits = [] ∨ width < digits.length ∨ bound ≤ value then none
  else if zeros = false ∧ digits.head? = some '0' ∧ 1 < digits.length then none
  else some (value, s.dropWhile isDigit)

/-- Four numbers below 256 with points between them, and what follows. -/
def v4? (s : List Char) : Option (List Nat × List Char) := do
  let (a, s) ← number? 10 3 256 false s
  let (b, s) ← number? 10 3 256 false (← Text.after? '.' s)
  let (c, s) ← number? 10 3 256 false (← Text.after? '.' s)
  let (d, s) ← number? 10 3 256 false (← Text.after? '.' s)
  return ([a, b, c, d], s)

/-- Up to `limit` groups with colons between them, whether four numbers with points stand in
place of the last two, and what follows. `first` says that no colon comes before the next. -/
def groups (first : Bool) : (limit : Nat) → List Char → (List Nat × Bool) × List Char
  | 0, s => (([], false), s)
  | limit + 1, s =>
    let start := if first then some s else Text.after? ':' s
    match (if 0 < limit then start.bind v4? else none), start.bind (number? 16 4 65536 true) with
    | some ([a, b, c, d], rest), _ => (([a * 256 + b, c * 256 + d], true), rest)
    | _, some (group, rest) =>
      let ((more, numbers), rest) := groups false limit rest
      ((group :: more, numbers), rest)
    | _, none => (([], false), s)

/-- Eight groups, of which two colons may leave out some that are zero, and what follows. -/
def v6? (s : List Char) : Option (List Nat × List Char) :=
  let ((head, numbers), rest) := groups true 8 s
  if head.length = 8 then some (head, rest)
  else if numbers then none
  else do
    let rest ← Text.after? ':' (← Text.after? ':' rest)
    let ((tail, _), rest) := groups true (7 - head.length) rest
    return (head ++ List.replicate (8 - head.length - tail.length) 0 ++ tail, rest)

/-- The address and port with nothing after them. -/
def ending? (host : HostAddress) (s : List Char) : Option SocketAddress := do
  let (port, rest) ← number? 10 s.length 65536 true (← Text.after? ':' s)
  if rest = [] then some { host, port } else none

/-- The number of an interface after a percent sign, and what follows. -/
def scope? (s : List Char) : Nat × List Char :=
  ((Text.after? '%' s).bind fun rest => number? 10 rest.length (Nat.pow 2 32) true rest).getD (0, s)

/-- The address that a text stands for. -/
def parse? (text : String) : Option SocketAddress :=
  match text.toList with
  | '[' :: s => do
    let (groups, rest) ← v6? s
    let (scope, rest) := scope? rest
    ending? (.v6 groups scope) (← Text.after? ']' rest)
  | s => do
    let (bytes, rest) ← v4? s
    ending? (.v4 bytes) rest

end SocketAddress

end LeasePool
