import LeasePool.Text.Decimal

/-!
# Doubles in text

Fractions, and whole numbers beyond 64 bits, are read as doubles in an arithmetic that is quick
and not always exact. The digits are gathered in a word of 64 bits as far as they fit; the number
is that word, rounded to a double, times or divided by a power of ten and rounded again. A double
is written with the fewest digits from which exact arithmetic recovers it, so that it is not
always read back from its own text: `0.09090909090909091` is read as `0.09090909090909093`.
-/

namespace LeasePool.Text

/-! ## Reading -/

/-- Appends digits to a number as long as it stays below `2 ^ 64`: the number, and the digits that
are left over. -/
def gather (n : Nat) : List Char → Nat × List Char
  | [] => (n, [])
  | c :: digits =>
    let next := 10 * n + (c.toNat - '0'.toNat)
    if next < Nat.pow 2 64 then gather next digits else (n, c :: digits)

/-- The greatest exponent of ten whose power is among the doubles. -/
def greatestPower : Nat := 308

/-- A power of ten as a double. -/
def powerOfTen (exponent : Nat) : Float := .ofScientific 1 false exponent

/-- Divides by the greatest power of ten `times` times, and by `10 ^ rest` in the end. A zero is
not divided any further. -/
def divide (f : Float) : (times rest : Nat) → Float
  | 0, rest => f / powerOfTen rest
  | times + 1, rest => if f == 0 then f else divide (f / powerOfTen greatestPower) times rest

/-- `f · 10 ^ exponent` for a number `f` that is not negative, unless it is beyond every double. -/
def scale? (f : Float) (exponent : Int) : Option Float :=
  let size := exponent.natAbs
  if exponent < 0 then
    let times := (size - 1) / greatestPower
    some (divide f times (size - times * greatestPower))
  else if size ≤ greatestPower then
    let product := f * powerOfTen size
    if product.isInf then none else some product
  else if f == 0 then some f else none

/-! ## Writing -/

/-- The magnitude of a finite double as a fraction. -/
def magnitude (f : Float) : Nat × Nat :=
  let bits := f.toBits.toNat
  let mantissa := bits % Nat.pow 2 52
  let exponent := bits / Nat.pow 2 52 % Nat.pow 2 11
  if exponent = 0 then (mantissa, Nat.pow 2 1074)
  else ((Nat.pow 2 52 + mantissa) * Nat.pow 2 (exponent - 1075), Nat.pow 2 (1075 - exponent))

/-- The exponent of ten at the first digit of `p / q`. -/
def leadingExponent (p q : Nat) : Int :=
  if q ≤ p then (decimal (p / q)).length - 1 else -((decimal ((q - 1) / p)).length : Int)

/-- The two numbers of `count` digits around `p / q`, each with its exponent of ten, the nearer
one first. -/
def neighbours (p q count : Nat) : List (Nat × Int) :=
  let exponent := leadingExponent p q + 1 - count
  let p := p * Nat.pow 10 (-exponent).toNat
  let q := q * Nat.pow 10 exponent.toNat
  let below := (p / q, exponent)
  let above := (p / q + 1, exponent)
  if 2 * (p % q) < q ∨ 2 * (p % q) = q ∧ p / q % 2 = 0 then [below, above] else [above, below]

/-- How many digits tell any two doubles apart. -/
def digitLimit : Nat := 17

/-- The digits, as a number and an exponent of ten, of the shortest decimal number that rounds to
the magnitude of a double. -/
def shortest (f : Float) : Nat × Int :=
  let (p, q) := magnitude f
  let candidates := (List.range digitLimit).flatMap fun n => neighbours p q (n + 1)
  (candidates.find? fun (n, exponent) =>
    Float.ofScientific n (exponent < 0) exponent.natAbs == f.abs).getD (0, 0)

/-- The text of `0.digits · 10 ^ point`: plain for numbers of a middling size, with an exponent for
others. -/
def layout (digits : List Char) (point : Int) : List Char :=
  let size : Int := digits.length
  if size ≤ point ∧ point ≤ 16 then
    digits ++ List.replicate (point - size).toNat '0' ++ ['.', '0']
  else if 0 < point ∧ point ≤ 16 then
    digits.take point.toNat ++ '.' :: digits.drop point.toNat
  else if -5 < point ∧ point ≤ 0 then
    '0' :: '.' :: List.replicate (-point).toNat '0' ++ digits
  else
    let fraction := if size = 1 then [] else '.' :: digits.drop 1
    digits.take 1 ++ fraction ++ 'e' :: signed (point - 1)

/-- The text of the magnitude of a double that is not zero. -/
def magnitudeText (f : Float) : List Char :=
  let (n, exponent) := shortest f
  let digits := decimal n
  layout (digits.reverse.dropWhile (· = '0')).reverse (exponent + digits.length)

/-- The text of a double. -/
def double (f : Float) : List Char :=
  let sign := if f.toBits.toNat < Nat.pow 2 63 then [] else ['-']
  sign ++ if f == 0 then ['0', '.', '0'] else magnitudeText f

end LeasePool.Text
