import Workplane.Json.Printer

/-!
# Requests and responses

The messages that the API takes and gives, without what only a connection needs.
-/

namespace Workplane.Http

/-- What a request wants done. -/
inductive Method where
  | get
  /-- Like `get`, but without a body in the response. -/
  | head
  | post
  | patch
  | delete
  /-- A method that no resource has. -/
  | other
  deriving DecidableEq, Repr

/-- The method of a name; names are in capital letters. -/
def Method.ofName (name : String) : Method :=
  if name = "GET" then get
  else if name = "HEAD" then head
  else if name = "POST" then post
  else if name = "PATCH" then patch
  else if name = "DELETE" then delete
  else other

/-- A request. -/
structure Request where
  method : Method
  /-- The path, with the query if there is one. -/
  target : String
  body : ByteArray

/-- What a response holds. -/
inductive Body where
  | json (document : Json)
  | text (content : String)

/-- A response. -/
structure Response where
  status : Nat
  body : Body

namespace Response

/-- A response with a document. -/
def json (status : Nat) (document : Json) : Response :=
  ⟨status, .json document⟩

/-- A response with plain text. -/
def text (status : Nat) (content : String) : Response :=
  ⟨status, .text content⟩

/-- The response was a success. -/
def isSuccess (r : Response) : Bool :=
  200 ≤ r.status && r.status < 300

/-- A response without its body. -/
def withoutBody (r : Response) : Response :=
  { r with body := .text "" }

end Response

end Workplane.Http
