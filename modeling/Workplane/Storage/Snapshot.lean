import Workplane.Storage.Repository

/-!
# Snapshots

A snapshot is a blob with all objects of a kind in a scope.  A backup replaces the snapshot of a
repository; a restore adds the objects of the snapshot that are missing, and changes none that
are there.
-/

namespace Workplane

/-- All objects of a kind in a scope, at some moment. -/
structure Snapshot (α : Type) where
  scope : String
  kind : String
  takenAt : Timestamp
  items : List α

namespace Snapshot

variable [Kind α]

/-- A snapshot as a document. -/
def toJson (s : Snapshot α) : Json :=
  .object [("namespace", .string s.scope), ("kind", .string s.kind),
    ("taken_at", s.takenAt.toJson), ("items", .array (s.items.map Kind.toJson))]

/-- A snapshot from a document. -/
def reader : Reader (Snapshot α) := fun room j => do
  let m ← Reader.members ["namespace", "kind", "taken_at", "items"] room j
  return {
    scope := ← m.required "namespace" Reader.text
    kind := ← m.required "kind" Reader.text
    takenAt := ← m.required "taken_at" Timestamp.reader
    items := ← m.required "items" (Reader.list Kind.reader) }

/-- The stored form of a snapshot. -/
def encode (s : Snapshot α) : ByteArray :=
  s.toJson.bytes

/-- The snapshot with a stored form. -/
def decode? (b : ByteArray) : Option (Snapshot α) := do
  Reader.run reader (← Json.ofBytes? b)

end Snapshot

namespace Repository

variable [Kind α]

/-- The key of the snapshot. -/
def backupKey (r : Repository α) : String :=
  s!"backups/{r.scope}/{Kind.plural α}.json"

/-- Writes a snapshot of all objects; the result is their number. -/
def backup (r : Repository α) : StoreProgram Nat := do
  let items ← r.list
  let takenAt ← (Program.now : Program Timestamp)
  let snapshot : Snapshot α := ⟨r.scope, Kind.plural α, takenAt, items⟩
  r.request "backup" (.putBlob r.backupKey snapshot.encode)
  return items.length

/-- Adds an object under its own name unless there is one; the result is the number of objects
added. -/
def restoreItem (r : Repository α) (a : α) : StoreProgram Nat :=
  tryCatch (do let _ ← r.create (Kind.objectName a) a; return 1) fun
    | .alreadyExists .. => return 0
    | e => throw e

/-- Adds the missing ones of a list of objects; the result is their number. -/
def restoreItems (r : Repository α) : List α → StoreProgram Nat
  | [] => return 0
  | a :: rest => do
    let first ← r.restoreItem a
    let others ← r.restoreItems rest
    return first + others

/-- Adds the objects of the last snapshot that are missing; the result is their number. -/
def restore (r : Repository α) : StoreProgram Nat := do
  match ← r.request "restore" (.getBlob r.backupKey) with
  | none => return 0
  | some data =>
    match (Snapshot.decode? data : Option (Snapshot α)) with
    | some snapshot => r.restoreItems snapshot.items
    | none => throw (.serialization (Kind.plural α) "not a snapshot of this kind")

end Repository

end Workplane
