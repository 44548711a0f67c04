import LeasePool.Text.Decimal

/-!
# Request targets

The path and the query of a URL as a request shows them to a server. Dot segments are resolved,
backslashes count as slashes, characters that a URL does not have are written as their bytes in
UTF-8, and the fragment is left out.
-/

namespace LeasePool.Http

/-- The written form of a byte. -/
def percent (byte : UInt8) : List Char :=
  ['%', Text.upperDigit (byte.toNat / 16), Text.upperDigit (byte.toNat % 16)]

/-- The text with the bytes in place of certain characters. -/
def percentEncode (isEncoded : Char → Bool) (s : List Char) : List Char :=
  s.flatMap fun c => if isEncoded c then (String.utf8EncodeChar c).flatMap percent else [c]

/-- A character that neither a path nor a query has. -/
def isForeign (c : Char) : Bool :=
  c ≤ ' ' || '~' < c || c = '"' || c = '#' || c = '<' || c = '>'

/-- A character that a path does not have. -/
def isForeignToPath (c : Char) : Bool :=
  isForeign c || c = '?' || c = '`' || c = '\x7b' || c = '\x7d'

/-- A character that a query does not have. -/
def isForeignToQuery (c : Char) : Bool := isForeign c || c = '\''

/-- The number of dots that a segment consists of, if they are one or two. A dot may be
written as its byte. -/
def dots? (segment : List Char) : Option Nat :=
  let rec count : List Char → Option Nat
    | [] => some 0
    | '.' :: rest => (count rest).map (· + 1)
    | '%' :: '2' :: 'e' :: rest | '%' :: '2' :: 'E' :: rest => (count rest).map (· + 1)
    | _ => none
  (count segment).filter fun n => n = 1 ∨ n = 2

/-- The segments without dot segments: one dot stands for nothing, two take back the segment
before. A path that ends in dots ends in a slash. `done` holds the segments so far in reverse. -/
def resolveDots (done : List (List Char)) : List (List Char) → List (List Char)
  | [] => done.reverse
  | segment :: rest =>
    let done := match dots? segment with
      | some 1 => done
      | some _ => done.tail
      | none => segment :: done
    if rest = [] ∧ (dots? segment).isSome then ([] :: done).reverse else resolveDots done rest

/-- The segments between slashes, or backslashes. -/
def segments : List Char → List (List Char)
  | [] => [[]]
  | c :: rest =>
    match segments rest with
    | [] => [[c]]
    | segment :: more =>
      if c = '/' ∨ c = '\\' then [] :: segment :: more else (c :: segment) :: more

/-- The path of a target. -/
def targetPath (path : List Char) : List Char :=
  let resolved := resolveDots [] ((segments path).drop 1)
  (if resolved = [] then [[]] else resolved).flatMap fun segment =>
    '/' :: percentEncode isForeignToPath segment

/-- A byte of a key or value in a query. -/
def formByte (byte : UInt8) : List Char :=
  let c := Char.ofNat byte.toNat
  if c.isAlphanum || c = '*' || c = '-' || c = '.' || c = '_' then [c]
  else if c = ' ' then ['+']
  else percent byte

/-- A key or value in a query. -/
def formText (s : String) : List Char :=
  (s.toList.flatMap String.utf8EncodeChar).flatMap formByte

/-- Pairs as a query shows them. -/
def formEncode (pairs : List (String × String)) : List Char :=
  ['&'].intercalate (pairs.map fun p => formText p.1 ++ '=' :: formText p.2)

/-- What follows the scheme of a URL and the server that it names. -/
def afterServer : List Char → List Char
  | ':' :: '/' :: '/' :: rest =>
    rest.dropWhile fun c => c ≠ '/' && c ≠ '\\' && c ≠ '?' && c ≠ '#'
  | _ :: rest => afterServer rest
  | [] => []

/-- The characters of a URL that count: not the blanks and control characters around it, nor
tabs and line ends. -/
def urlChars (url : String) : List Char :=
  let trim (s : List Char) := s.dropWhile (· ≤ ' ')
  (trim (trim url.toList).reverse).reverse.filter fun c => c ≠ '\t' && c ≠ '\n' && c ≠ '\r'

/-- The target of a request to a URL, to whose query the pairs are added. -/
def target (url : String) (pairs : List (String × String)) : String :=
  let rest := (afterServer (urlChars url)).takeWhile (· ≠ '#')
  let path := rest.takeWhile (· ≠ '?')
  let own := percentEncode isForeignToQuery ((rest.dropWhile (· ≠ '?')).drop 1)
  let added := formEncode pairs
  let query := if own ≠ [] ∧ added ≠ [] then own ++ '&' :: added else own ++ added
  String.ofList (targetPath path ++ if query = [] then [] else '?' :: query)

end LeasePool.Http
