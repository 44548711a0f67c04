import LeasePool.Text.Quoted

/-!
# The layout of reports about a part

A report about a part of a process shows the name of the part and the fields that tell
something, each with its name, between braces. Two points stand for fields that are left out.
-/

namespace LeasePool.Text.Layout

/-- The fields of a part, each with its name. -/
def fields (fs : List (String × String)) : String :=
  String.intercalate ", " (fs.map fun f => f.1 ++ ": " ++ f.2)

/-- A part with all its fields. -/
def whole (name : String) (fs : List (String × String)) : String :=
  name ++ " \x7b " ++ fields fs ++ " \x7d"

/-- A part with some of its fields. -/
def summary (name : String) (fs : List (String × String)) : String :=
  name ++ " \x7b " ++ fields fs ++ ", .. \x7d"

/-- A truth value. -/
def bool (b : Bool) : String := if b then "true" else "false"

/-- A value that may be missing. -/
def option (value : Option String) : String :=
  match value with
  | none => "None"
  | some value => "Some(" ++ value ++ ")"

end LeasePool.Text.Layout
