import Workplane.Json.Basic
import Workplane.Sorted

/-!
# Readers

A reader turns a document into a value.  It carries the number of levels of nesting that are
still allowed, counts only the levels it descends into, and refuses a deeper document.

A record is read from an object, where members may stand in any order, unknown ones are skipped
and a declared one must not repeat, or from an array of its members in declared order.
-/

namespace Workplane

-- Powers are core's, whatever is in scope beside this module.
attribute [local instance (high)] instPowNat

/-- Reads a value from a document with the given number of levels of nesting left. -/
abbrev Reader (α : Type) := Nat → Json → Option α

namespace Reader

/-- The levels of nesting of a whole text. -/
def maxDepth : Nat := 127

/-- Reads a whole document. -/
def run (r : Reader α) (j : Json) : Option α :=
  r maxDepth j

/-! ### Scalars -/

/-- A text. -/
def text : Reader String
  | _, .string s => some s
  | _, _ => none

/-- A truth value. -/
def bool : Reader Bool
  | _, .bool b => some b
  | _, _ => none

/-- A number of either kind. -/
def float : Reader Float
  | _, .number (.float x) => some x
  | _, .number (.int n) => some (Float.ofInt n)
  | _, _ => none

/-- An integer from `low` to `high`. -/
def int (low high : Int) : Reader Int
  | _, .number (.int n) => if low ≤ n ∧ n ≤ high then some n else none
  | _, _ => none

/-- An integer of 32 bits without sign. -/
def uint32 : Reader UInt32 := fun room j =>
  (int 0 (2 ^ (32 : Nat) - 1) room j).map fun n => UInt32.ofNat n.toNat

/-- An integer of 64 bits without sign. -/
def uint64 : Reader UInt64 := fun room j =>
  (int 0 (2 ^ (64 : Nat) - 1) room j).map fun n => UInt64.ofNat n.toNat

/-- An integer of 32 bits with sign. -/
def int32 : Reader Int32 := fun room j =>
  (int (-2 ^ (31 : Nat)) (2 ^ (31 : Nat) - 1) room j).map Int32.ofInt

/-- An integer of 64 bits with sign. -/
def int64 : Reader Int64 := fun room j =>
  (int (-2 ^ (63 : Nat)) (2 ^ (63 : Nat) - 1) room j).map Int64.ofInt

/-- One of a list of names, written as text or as an object with `null` under the name. -/
def choice (names : List (String × α)) : Reader α
  | _, .string s => names.lookup s
  | _ + 1, .object [(s, .null)] => names.lookup s
  | _, _ => none

/-! ### Containers -/

/-- `null`, or a value. -/
def nullable (r : Reader α) : Reader (Option α)
  | _, .null => some none
  | room, j => (r room j).map some

/-- An array of values. -/
def list (r : Reader α) : Reader (List α)
  | room + 1, .array items => items.mapM (r room)
  | _, _ => none

/-- An object with values of one type. -/
def map (r : Reader α) : Reader (List (String × α))
  | room + 1, .object members => do
    let members ← members.mapM fun m => (r room m.2).map fun v => (m.1, v)
    return Sorted.ofList members
  | _, _ => none

mutual

/-- A document of any shape, with the members of each object sorted by name and the last of equal
names kept. -/
def any : Reader Json
  | _, .null => some .null
  | _, .bool b => some (.bool b)
  | _, .number n => some (.number n)
  | _, .string s => some (.string s)
  | room + 1, .array items => (anyItems room items).map .array
  | room + 1, .object members => (anyMembers room members).map fun ms => .object (Sorted.ofList ms)
  | _, _ => none

/-- The items of an array of any shape. -/
def anyItems : Nat → List Json → Option (List Json)
  | _, [] => some []
  | room, item :: rest => do
    let item ← any room item
    let rest ← anyItems room rest
    return item :: rest

/-- The members of an object of any shape, in their order. -/
def anyMembers : Nat → List (String × Json) → Option (List (String × Json))
  | _, [] => some []
  | room, (name, value) :: rest => do
    let value ← any room value
    let rest ← anyMembers room rest
    return (name, value) :: rest

end

/-! ### Records -/

/-- The members of a record as they were found. -/
structure Members where
  /-- The record was an array, in which nothing before a present member may be missing. -/
  positional : Bool
  /-- Levels of nesting left inside the record. -/
  room : Nat
  /-- The declared members that are present. -/
  found : List (String × Json)

/-- The members of a record with the given names. -/
def members (names : List String) : Reader Members
  | room + 1, .object ms =>
    let declared := ms.filter fun m => names.contains m.1
    if (declared.map (·.1)).Nodup then some ⟨false, room, declared⟩ else none
  -- The array may end early; whether a member may be missing is for the member to say.
  | room + 1, .array items =>
    if items.length ≤ names.length then some ⟨true, room, names.zip items⟩ else none
  | _, _ => none

namespace Members

/-- A member that must be present. -/
def required (m : Members) (name : String) (r : Reader α) : Option α := do
  r m.room (← m.found.lookup name)

/-- A member with a value of its own when it is missing. -/
def withDefault (m : Members) (name : String) (default : α) (r : Reader α) : Option α :=
  match m.found.lookup name with
  | some j => r m.room j
  | none => some default

/-- A member that may be `null`, and missing if the record is an object. -/
def optional (m : Members) (name : String) (r : Reader α) : Option (Option α) :=
  match m.found.lookup name with
  | some j => nullable r m.room j
  | none => if m.positional then none else some none

/-- A member that may be `null` or missing. -/
def omittable (m : Members) (name : String) (r : Reader α) : Option (Option α) :=
  m.withDefault name none (nullable r)

end Members

end Reader

end Workplane
