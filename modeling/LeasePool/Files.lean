import LeasePool.Text.Utf8

/-!
# Files

What a process finds when it reads files: the bytes of a file, or the reason why there are none.
-/

namespace LeasePool

/-- Why a file cannot be read, or not as text. -/
inductive FileFault where
  | missing
  | directory
  /-- The path leads on from something that is not a directory. -/
  | notDirectory
  | nameTooLong
  | malformedPath
  | notText
  deriving DecidableEq, Repr

/-- The report of the reason. -/
def FileFault.message : FileFault → String
  | missing => "No such file or directory (os error 2)"
  | directory => "Is a directory (os error 21)"
  | notDirectory => "Not a directory (os error 20)"
  | nameTooLong => "File name too long (os error 36)"
  | malformedPath => "file name contained an unexpected NUL byte"
  | notText => "stream did not contain valid UTF-8"

/-- The files that a process can read, by path. -/
abbrev Files : Type := String → Except FileFault (List UInt8)

namespace Files

/-- The text of a file. -/
def text (files : Files) (path : String) : Except FileFault String :=
  match files path with
  | .error fault => .error fault
  | .ok bytes =>
    match Text.Utf8.decode? bytes with
    | some text => .ok text
    | none => .error .notText

/-- No files. -/
def none : Files := fun _ => .error .missing

/-- The parts of a path between its slashes. -/
def parts : List Char → List (List Char)
  | [] => [[]]
  | c :: rest =>
    match parts rest with
    | [] => [[c]]
    | part :: more => if c = '/' then [] :: part :: more else (c :: part) :: more

/-- A path, by the names of the directories that lead to its end, and the name of that. -/
abbrev Place : Type := List (List Char)

/-- Follows the parts of a path from a directory. -/
def follow (isDirectory : Place → Bool) (file? : Place → Option (List UInt8)) :
    (here : Place) → List (List Char) → Except FileFault (List UInt8)
  | _, [] => .error .directory
  | here, part :: rest =>
    if part = [] ∨ part = ['.'] then follow isDirectory file? here rest
    else if part = ['.', '.'] then follow isDirectory file? here.dropLast rest
    else if 255 < (part.flatMap String.utf8EncodeChar).length then .error .nameTooLong
    else
      match file? (here ++ [part]) with
      | some bytes => if rest = [] then .ok bytes else .error .notDirectory
      | Option.none =>
        if isDirectory (here ++ [part]) then follow isDirectory file? (here ++ [part]) rest
        else .error .missing

/-- Files below a working directory. Their paths are relative to it, or absolute, and so are the
paths by which they are found. -/
def ofList (home : String) (files : List (String × List UInt8)) : Files := fun path =>
  let whole (path : String) : List (List Char) :=
    let path := path.toList
    parts (if path.head? = some '/' then path else home.toList ++ '/' :: path)
  let place (path : String) : Place := (whole path).filter (· ≠ [])
  let places := files.map fun f => (place f.1, f.2)
  let isDirectory (p : Place) : Bool :=
    p.isPrefixOf (place home) || places.any fun f => p.isPrefixOf f.1
  if path = "" then .error .missing
  else if path.toList.contains '\x00' then .error .malformedPath
  else follow isDirectory (fun p => (places.find? fun f => f.1 = p).map (·.2)) [] (whole path)

end Files

end LeasePool
