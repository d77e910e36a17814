import Workplane.Json.Reader
import Workplane.Text.Blank

/-!
# Workspace states

The mode of a whole workspace.  Only a normal workspace takes changes from its users.
-/

namespace Workplane.Workspace

/-- The mode of a workspace. -/
inductive State where
  | normal
  | paused
  | terminated
  deriving DecidableEq, Repr

namespace State

/-- The written name of a state. -/
def name : State → String
  | normal => "normal"
  | paused => "paused"
  | terminated => "terminated"

/-- The states with their written names. -/
def names : List (String × State) :=
  [("normal", normal), ("paused", paused), ("terminated", terminated)]

/-- Users may change what the workspace holds. -/
def isWritable (s : State) : Bool :=
  s == normal

/-- The state that a text names, whatever the case of its letters and the blanks around it. -/
def parse? (text : String) : Option State :=
  names.lookup (String.ofList ((Text.trim text.toList).map Char.toLower))

/-- What is wrong with a text that names no state. -/
def unknownMessage (text : String) : String :=
  s!"invalid workspace state '{text}', expected one of: normal, paused, terminated"

/-- A state as a document. -/
def toJson (s : State) : Json :=
  .string s.name

/-- A state from a document. -/
def reader : Reader State :=
  Reader.choice names

end State

end Workplane.Workspace
