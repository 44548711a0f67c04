import LeasePool.Json.Basic

/-!
# HTTP messages

Requests and responses, as far as this library looks at them.
-/

namespace LeasePool.Http

/-- A request method. -/
inductive Method where
  | get
  | post
  | put
  deriving DecidableEq, Repr

/-- The name of a method. -/
def Method.name : Method → String
  | get => "GET"
  | post => "POST"
  | put => "PUT"

/-- A request. -/
structure Request where
  method : Method
  url : String
  /-- Pairs that are added to the query of the URL. -/
  query : List (String × String) := []
  /-- A JSON document to send along. -/
  body : Option Json := none
  /-- The token that the sender identifies itself with. -/
  token : Option String := none

/-- Whether a character may stand in a header. -/
def isHeaderChar (c : Char) : Bool := c = '\t' || (' ' ≤ c && c ≠ '\x7f')

/-- Whether the headers of a request can be written down. -/
def Request.isSendable (r : Request) : Bool :=
  (r.token.getD "").toList.all isHeaderChar

/-- The header that a token is sent in. -/
def Request.authorization? (r : Request) : Option String :=
  r.token.map fun token => if token = "" then "Bearer" else "Bearer " ++ token

/-- A response. -/
structure Response where
  status : Nat
  body : List UInt8

/-- Whether the request was successful. -/
def Response.isSuccess (r : Response) : Bool := 200 ≤ r.status && r.status < 300

end LeasePool.Http
