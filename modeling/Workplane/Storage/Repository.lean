import Workplane.Storage.Error
import Workplane.Storage.Kind
import Workplane.Storage.Program

/-!
# Repositories

A repository keeps the objects of one kind in one scope, each under its name.  Its operations are
programs over the storage backend; every call they make is given up after the limit of the
repository.

An update names the revision that it is based on, so it fails with `StoreError.conflict` instead
of undoing a concurrent change.
-/

namespace Workplane

-- Powers are core's, whatever is in scope beside this module.
attribute [local instance (high)] instPowNat

/-- A program that may fail with an error of the store. -/
abbrev StoreProgram := ExceptT StoreError Program

/-- The place of the objects of one kind in one scope. -/
structure Repository (α : Type) where
  /-- The part of the store that the objects are in. -/
  scope : String
  /-- The most milliseconds that a single call may take. -/
  limit : Nat := 30000

/-- An object with the revision that it was read at. -/
structure Versioned (α : Type) where
  object : α
  revision : UInt64

namespace Repository

variable [Kind α]

/-! ### Keys and single calls -/

/-- What the keys of all objects start with. -/
def root (r : Repository α) : String :=
  s!"/{r.scope}/{Kind.plural α}/"

/-- The key of the object of a name. -/
def key (r : Repository α) (name : String) : String :=
  r.root ++ name

/-- A call to the backend on behalf of an operation. -/
def request (r : Repository α) (operation : String) (c : Call) : StoreProgram c.Answer :=
  ExceptT.mk (.call c r.limit fun reply => .done <|
    match reply.outcome with
    | .answered answer => .ok answer
    | .failed causes => .error (.backend (Kind.plural α) causes)
    | .gaveUp => .error (.timeout (Kind.plural α) operation (r.limit * 10 ^ (6 : Nat))))

/-- The object that a stored value holds. -/
def decode (value : ByteArray) : StoreProgram α :=
  match Kind.decode? value with
  | some a => return a
  | none => throw (.serialization (Kind.plural α) "not a stored object of this kind")

/-! ### Operations -/

/-- Adds an object under a name that is not taken yet. -/
def create (r : Repository α) (name : String) (a : α) : StoreProgram UInt64 := do
  let swap ← r.request "create" (.swap (r.key name) 0 (Kind.encode a))
  if swap.written then return swap.revision
  else throw (.alreadyExists (Kind.plural α) name)

/-- The object of a name, with its revision. -/
def getVersioned (r : Repository α) (name : String) : StoreProgram (Versioned α) := do
  match ← r.request "get" (.get (r.key name)) with
  | some e => return ⟨← decode e.value, e.revision⟩
  | none => throw (.notFound (Kind.plural α) name)

/-- The object of a name. -/
def get (r : Repository α) (name : String) : StoreProgram α :=
  Versioned.object <$> r.getVersioned name

/-- All objects in the order of their keys; a value that is no object is left out. -/
def list (r : Repository α) : StoreProgram (List α) := do
  let entries ← r.request "list" (.list r.root)
  return entries.filterMap fun e => Kind.decode? e.value

/-- Replaces an object that still has the given revision. -/
def updateAt (r : Repository α) (name : String) (a : α) (revision : UInt64) :
    StoreProgram UInt64 := do
  let swap ← r.request "update" (.swap (r.key name) revision (Kind.encode a))
  if swap.written then return swap.revision
  else if swap.revision = 0 then throw (.notFound (Kind.plural α) name)
  else throw (.conflict (Kind.plural α) name)

/-- Replaces an object at the revision that it has now. -/
def update (r : Repository α) (name : String) (a : α) : StoreProgram UInt64 := do
  let current ← r.getVersioned name
  r.updateAt name a current.revision

/-- Removes an object. -/
def delete (r : Repository α) (name : String) : StoreProgram Unit := do
  if ← r.request "delete" (.delete (r.key name)) then return ()
  else throw (.notFound (Kind.plural α) name)

end Repository

end Workplane
