/-!
# Numbers in text

Reading and writing of whole numbers in the base ten, and the digits of the base sixteen. A number
is read from ASCII digits only, all of them: the readers below refuse blanks, separators and
trailing text, and they take the bound of the type the number is meant for, so that an over-long
text is refused and never wraps.
-/

namespace LeasePool.Text

/-- The digits of `n` without leading zeros. -/
def decimal (n : Nat) : List Char :=
  Nat.toDigits 10 n

/-- The digits of `n`, with zeros in front until there are `width` of them. -/
def padded (width n : Nat) : List Char :=
  List.replicate (width - (decimal n).length) '0' ++ decimal n

/-- The number that `s` denotes, if it is a non-empty run of digits. -/
def digits? (s : List Char) : Option Nat :=
  if s ≠ [] ∧ s.all Char.isDigit = true then some (Nat.ofDigitChars 10 s 0) else none

/-- The text without one leading plus sign. -/
def dropPlus : List Char → List Char
  | '+' :: s => s
  | s => s

/-- A number below `bound`: an optional plus sign and one or more digits. -/
def natural? (bound : Nat) (s : List Char) : Option Nat :=
  (digits? (dropPlus s)).filter (· < bound)

/-- A number of `low ≤ n < high`: an optional sign and one or more digits. -/
def integer? (low high : Int) (s : List Char) : Option Int :=
  let value := match s with
    | '-' :: s => (digits? s).map fun n => -(n : Int)
    | s => (digits? (dropPlus s)).map fun n => (n : Int)
  value.filter fun n => low ≤ n ∧ n < high

/-- The value of a hexadecimal digit. -/
def hexDigit? (c : Char) : Option Nat :=
  if c.isDigit then some (c.toNat - 48)
  else if 'a' ≤ c ∧ c ≤ 'f' then some (c.toNat - 87)
  else if 'A' ≤ c ∧ c ≤ 'F' then some (c.toNat - 55)
  else none

/-- A hexadecimal digit in upper case. -/
def upperDigit (n : Nat) : Char := n.digitChar.toUpper

/-- Whether `digits · 10 ^ exponent` rounds to no double: it lies half a unit in the last place
above the greatest one, or higher. -/
def exceedsDouble (digits : Nat) (exponent : Int) : Bool :=
  let magnitude := exponent + ((decimal digits).length : Int)
  if digits = 0 ∨ magnitude < 300 then false
  else if magnitude > 320 then true
  else
    let bound := Nat.pow 2 1024 - Nat.pow 2 970
    if exponent < 0 then digits ≥ bound * Nat.pow 10 exponent.natAbs
    else digits * Nat.pow 10 exponent.natAbs ≥ bound

/-- The text of an integer: its digits, after a minus sign if it is negative. -/
def signed (n : Int) : List Char :=
  if n < 0 then '-' :: decimal n.natAbs else decimal n.natAbs

end LeasePool.Text
