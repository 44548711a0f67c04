import LeasePool.Json.Basic

/-!
# TOML documents

A TOML document is a table that its lines build up. A table remembers how it came to be, because
that decides who may add to it: a table in braces is complete, a table with a header takes no
dotted keys from elsewhere, and a table that a header only passes through may still get a header
of its own.
-/

namespace LeasePool.Toml

/-- How a table came to be. -/
inductive Origin where
  /-- Written in braces. -/
  | braces
  /-- It has a header. -/
  | header
  /-- Dotted keys lead through it. -/
  | dotted
  /-- Only headers of tables inside it mention it. -/
  | implied
  deriving DecidableEq, Repr

/-- A value or table. Floats and dates are kept as written. -/
inductive Item where
  | string (value : String)
  | integer (value : Int)
  | float (text : String)
  | boolean (value : Bool)
  | date (text : String)
  | array (items : List Item)
  | table (origin : Origin) (members : List (String × Item))
  /-- The tables that share a header, the latest one last. -/
  | rows (tables : List (List (String × Item)))
  deriving Inhabited

/-- The members of a table. -/
abbrev Members : Type := List (String × Item)

namespace Members

/-- The item under a key. -/
def get? (members : Members) (key : String) : Option Item :=
  (members.find? fun m => m.1 = key).map (·.2)

/-- Puts an item in the place of the one under its key. -/
def replace (members : Members) (key : String) (item : Item) : Members :=
  members.map fun m => if m.1 = key then (key, item) else m

/-- Puts an item under a new key. -/
def add? (members : Members) (key : String) (item : Item) : Option Members :=
  if (members.get? key).isSome then none else some (members ++ [(key, item)])

/-- Changes the table at the end of a path. Tables that the path needs come into being on the
way; along a dotted key it does not lead through a table with a header. Of tables that share a
header the latest is meant. -/
def alter? (alongKey : Bool) (change : Origin → Members → Option Members) :
    (path : List String) → Origin → Members → Option Members
  | [], origin, members => change origin members
  | key :: path, _, members =>
    match members.get? key with
    | none => do
      let origin := if alongKey then .dotted else .implied
      let inner ← alter? alongKey change path origin []
      return members ++ [(key, .table origin inner)]
    | some (.table origin inner) =>
      if origin = .braces ∨ (alongKey = true ∧ origin = .header) then none
      else do
        let inner ← alter? alongKey change path origin inner
        return members.replace key (.table origin inner)
    | some (.rows tables) =>
      match tables.getLast? with
      | none => none
      | some latest => do
        let inner ← alter? alongKey change path .header latest
        return members.replace key (.rows (tables.dropLast ++ [inner]))
    | some _ => none

end Members

/-! ## Lines -/

/-- A key: the keys of the tables that lead to it, and its own. -/
structure DottedKey where
  outer : List String
  last : String
  deriving DecidableEq, Repr

/-- The keys of the tables that lead to the table under a key, and the table itself. -/
def DottedKey.path (k : DottedKey) : List String := k.outer ++ [k.last]

/-- A line of a document that is neither blank nor a comment. -/
inductive Line where
  /-- The beginning of a table. -/
  | header (key : DottedKey)
  /-- The beginning of one of the tables that share a header. -/
  | row (key : DottedKey)
  | entry (key : DottedKey) (value : Item)

/-- Puts a value under a dotted key. A table that the key leads through last has to be one of
dotted keys. -/
def Members.insert? (members : Members) (origin : Origin) (key : DottedKey) (value : Item) :
    Option Members :=
  members.alter? true (fun origin inner =>
    if key.outer ≠ [] ∧ origin ≠ .dotted then none else inner.add? key.last value)
    key.outer origin

/-- A document of which some lines have been read: its table, and the path of the table to
which the next entry belongs. -/
structure Draft where
  members : Members := []
  current : List String := []

/-- Reads one more line. -/
def Draft.add? (d : Draft) : Line → Option Draft
  | .header key => do
    let members ← d.members.alter? false (fun _ inner =>
      match inner.get? key.last with
      | none => some (inner ++ [(key.last, .table .header [])])
      | some (.table .implied old) => some (inner.replace key.last (.table .header old))
      | some _ => none) key.outer .header
    return { members, current := key.path }
  | .row key => do
    let members ← d.members.alter? false (fun _ inner =>
      match inner.get? key.last with
      | none => some (inner ++ [(key.last, .rows [[]])])
      | some (.rows tables) => some (inner.replace key.last (.rows (tables ++ [[]])))
      | some _ => none) key.outer .header
    return { members, current := key.path }
  | .entry key value => do
    let members ← d.members.alter? false (fun origin inner => inner.insert? origin key value)
      d.current .header
    return { d with members }

/-- The table that the lines build up. -/
def ofLines? (lines : List Line) : Option Members :=
  (lines.foldlM Draft.add? {}).map Draft.members

/-- The table in braces that holds the values under the keys. -/
def inBraces? (pairs : List (DottedKey × Item)) : Option Item :=
  (pairs.foldlM (fun (members : Members) p => members.insert? .braces p.1 p.2) []).map
    (.table .braces)

/-! ## Documents as records are read from them -/

mutual
/-- The item as a JSON document. Records are read from it as from JSON, for which the numbers
with a fraction are of no use and a date is an object without any member that a record has. -/
def Item.toJson : Item → Json
  | .string s => .string s
  | .integer n => .int n
  | .float _ => .broken
  | .boolean b => .bool b
  | .date _ => .object []
  | .array items => .array (itemsToJson items)
  | .table _ members => .object (membersToJson members)
  | .rows tables => .array (tablesToJson tables)
/-- The elements of an array. -/
def itemsToJson : List Item → List Json
  | [] => []
  | x :: xs => x.toJson :: itemsToJson xs
/-- The members of a table. -/
def membersToJson : List (String × Item) → List (String × Json)
  | [] => []
  | (k, x) :: xs => (k, x.toJson) :: membersToJson xs
/-- The tables that share a header. -/
def tablesToJson : List (List (String × Item)) → List Json
  | [] => []
  | t :: ts => .object (membersToJson t) :: tablesToJson ts
end

end LeasePool.Toml
