import LeasePool.Table
import LeasePool.Text.Decimal

/-!
# JSON values

A JSON document as its syntax shows it. Two things are left to whoever takes a value out of a
document, because a value under a key that nobody reads is not looked at: the nesting depth, and
the pieces that are correct syntax and yet denote nothing (half of a surrogate pair, bytes that
are not UTF-8, a number beyond every double). Such a piece is `broken`.

## Main definitions

* `Json`: a document, whose objects keep their members in the order of the text, repetitions
  included.
* `Json.value?`: the value that a document denotes within a nesting depth, with the members of
  each object sorted by key and the last of repeated ones kept.
* `Json.record?`: the members of an object, or the elements of an array, by field.
-/

namespace LeasePool

/-- A number. Integers that fit into 64 bits stand for themselves; everything else, a fraction, an
exponent or a negative zero, is a double. -/
inductive Json.Number where
  | integer (value : Int)
  | double (value : Float)
  deriving DecidableEq, Repr

/-- A JSON document. -/
inductive Json where
  | null
  | bool (value : Bool)
  | number (value : Json.Number)
  | string (value : String)
  | array (items : List Json)
  | object (members : List (String × Json))
  /-- Correct syntax that denotes no value. -/
  | broken
  deriving Inhabited

namespace Json

mutual
/-- Equality of documents is decidable. -/
def decEq : (a b : Json) → Decidable (a = b)
  | .null, .null => isTrue rfl
  | .bool a, .bool b => decidable_of_iff (a = b) (by simp)
  | .number a, .number b => decidable_of_iff (a = b) (by simp)
  | .string a, .string b => decidable_of_iff (a = b) (by simp)
  | .array a, .array b => have := decEqItems a b; decidable_of_iff (a = b) (by simp)
  | .object a, .object b => have := decEqMembers a b; decidable_of_iff (a = b) (by simp)
  | .broken, .broken => isTrue rfl
  | .null, .bool _ | .null, .number _ | .null, .string _ | .null, .array _ | .null, .object _
  | .null, .broken | .bool _, .null | .bool _, .number _ | .bool _, .string _ | .bool _, .array _
  | .bool _, .object _ | .bool _, .broken | .number _, .null | .number _, .bool _
  | .number _, .string _ | .number _, .array _ | .number _, .object _ | .number _, .broken
  | .string _, .null | .string _, .bool _ | .string _, .number _ | .string _, .array _
  | .string _, .object _ | .string _, .broken | .array _, .null | .array _, .bool _
  | .array _, .number _ | .array _, .string _ | .array _, .object _ | .array _, .broken
  | .object _, .null | .object _, .bool _ | .object _, .number _ | .object _, .string _
  | .object _, .array _ | .object _, .broken | .broken, .null | .broken, .bool _
  | .broken, .number _ | .broken, .string _ | .broken, .array _ | .broken, .object _ =>
    isFalse (by simp)
/-- Equality of the elements of arrays. -/
def decEqItems : (a b : List Json) → Decidable (a = b)
  | [], [] => isTrue rfl
  | [], _ :: _ | _ :: _, [] => isFalse (by simp)
  | a :: as, b :: bs =>
    have := decEq a b
    have := decEqItems as bs
    decidable_of_iff (a = b ∧ as = bs) (by simp)
/-- Equality of the members of objects. -/
def decEqMembers : (a b : List (String × Json)) → Decidable (a = b)
  | [], [] => isTrue rfl
  | [], _ :: _ | _ :: _, [] => isFalse (by simp)
  | (k, a) :: as, (l, b) :: bs =>
    have := decEq a b
    have := decEqMembers as bs
    decidable_of_iff ((k = l ∧ a = b) ∧ as = bs) (by simp)
end

instance : DecidableEq Json := decEq

/-- A number from an integer. -/
def int (n : Int) : Json := .number (.integer n)

/-- An array of texts. -/
def strings (xs : List String) : Json := .array (xs.map .string)

/-- `none` as null. -/
def ofOption {α : Type} (f : α → Json) : Option α → Json
  | none => .null
  | some a => f a

/-! ## Values -/

/-- Puts a member into a list that is sorted by key, in place of one with the same key. -/
def insertMember (key : String) (value : Json) : List (String × Json) → List (String × Json)
  | [] => [(key, value)]
  | (k, v) :: rest =>
    if key < k then (key, value) :: (k, v) :: rest
    else if key = k then (key, value) :: rest
    else (k, v) :: insertMember key value rest

/-- The members sorted by key, the last of those with one key. -/
def sortMembers (members : List (String × Json)) : List (String × Json) :=
  members.foldl (fun sorted m => insertMember m.1 m.2 sorted) []

mutual
/-- The value that a document denotes, if it nests arrays and objects at most `depth` deep and
has no broken piece. The members of its objects are sorted by key and have distinct keys. -/
def value? : (depth : Nat) → Json → Option Json
  | _, .null => some .null
  | _, .bool b => some (.bool b)
  | _, .number n => some (.number n)
  | _, .string s => some (.string s)
  | 0, .array _ => none
  | depth + 1, .array items => (valueItems? depth items).map .array
  | 0, .object _ => none
  | depth + 1, .object members =>
    (valueMembers? depth members).map fun members => .object (sortMembers members)
  | _, .broken => none
/-- The values of the elements of an array. -/
def valueItems? : (depth : Nat) → List Json → Option (List Json)
  | _, [] => some []
  | depth, x :: xs => do
    let x ← value? depth x
    let xs ← valueItems? depth xs
    return x :: xs
/-- The values of the members of an object. -/
def valueMembers? : (depth : Nat) → List (String × Json) → Option (List (String × Json))
  | _, [] => some []
  | depth, (k, x) :: xs => do
    let x ← value? depth x
    let xs ← valueMembers? depth xs
    return (k, x) :: xs
end

/-- How deep a document may nest whose values are all asked for. -/
def depthLimit : Nat := 127

/-! ## Writing records -/

/-- An object with its members in order of their keys. -/
def ofMembers (members : List (String × Json)) : Json :=
  .object (sortMembers members)

/-- A member, unless there is no value for it. -/
def member {α : Type} (key : String) (write : α → Json) : Option α → List (String × Json)
  | none => []
  | some value => [(key, write value)]

/-! ## Reading single values -/

/-- The text of a string. -/
def string? : Json → Option String
  | .string s => some s
  | _ => none

/-- A truth value. -/
def bool? : Json → Option Bool
  | .bool b => some b
  | _ => none

/-- An integer of `low ≤ n < high`. A number with a fraction or an exponent is none. -/
def integer? (low high : Int) : Json → Option Int
  | .number (.integer n) => if low ≤ n ∧ n < high then some n else none
  | _ => none

/-- A signed 32-bit integer. -/
def int32? (json : Json) : Option Int32 :=
  (json.integer? (-Int.pow 2 31) (Int.pow 2 31)).map Int32.ofInt

/-- `none` for null, and otherwise what `read` makes of the value. -/
def orNull? {α : Type} (read : Json → Option α) : Json → Option (Option α)
  | .null => some none
  | json => (read json).map some

/-! ## Reading records -/

/-- What stands under `key` in an object: `some none` if the key is absent, and `none`, a
failure, if it is repeated. -/
def single? (members : List (String × Json)) (key : String) : Option (Option Json) :=
  match members.filter fun m => m.1 = key with
  | [] => some none
  | [m] => some (some m.2)
  | _ => none

/-- The fields of a record, in the order of `names`. A record is an object, whose other members
are not looked at, or an array of its fields from the first one on. -/
def fields? (names : List String) : Json → Option (List (Option Json))
  | .object members => names.mapM (single? members)
  | .array items =>
    some ((items.map some ++ List.replicate names.length none).take names.length)
  | _ => none

/-- Whether the document is an array with more than `n` elements. -/
def isLongerThan (n : Nat) : Json → Bool
  | .array items => n < items.length
  | _ => false

/-- The fields of a record that has none beyond those named. -/
def record? (names : List String) (json : Json) : Option (List (Option Json)) :=
  if json.isLongerThan names.length then none else json.fields? names

/-- The values of the members whose keys are not among `known`. -/
def others? (known : List String) (depth : Nat) (members : List (String × Json)) :
    Option (Table String Json) :=
  (valueMembers? depth (members.filter fun m => m.1 ∉ known)).map Table.ofList

/-- A field that may be missing. -/
def defaulted? {α : Type} (fallback : α) (read : Json → Option α) : Option Json → Option α
  | none => some fallback
  | some json => read json

/-- A field that may not be missing. -/
def required? {α : Type} (read : Json → Option α) (field : Option Json) : Option α :=
  field.bind read

end Json

end LeasePool
