/-!
# JSON documents

`Json` is the tree of a document as it was written: members keep their order and may repeat, and
a part that is well-formed but denotes no value is kept as `unreadable`, so that a reader that
skips it does not mind.
-/

namespace Workplane

/-- A number of a document: an integer if it was spelled as one that fits into 64 bits, a double
otherwise. -/
inductive Number where
  | int (value : Int)
  | float (value : Float)

/-- A JSON document. -/
inductive Json where
  | null
  | bool (value : Bool)
  | number (value : Number)
  | string (value : String)
  | array (items : List Json)
  | object (members : List (String × Json))
  /-- Well-formed, but no value: text with a lone surrogate or malformed bytes, a number beyond
  the range of doubles, or an object with such text as a name. -/
  | unreadable

namespace Json

/-- An integer as a document. -/
def int (n : Int) : Json := .number (.int n)

/-- A double as a document. -/
def float (x : Float) : Json := .number (.float x)

/-- A list of texts as a document. -/
def strings (ss : List String) : Json := .array (ss.map .string)

/-- A member that is left out when there is no value. -/
def optional (name : String) (encode : α → Json) : Option α → List (String × Json)
  | some a => [(name, encode a)]
  | none => []

/-- A member that is `null` when there is no value. -/
def nullable (encode : α → Json) : Option α → Json
  | some a => encode a
  | none => .null

end Json

end Workplane
