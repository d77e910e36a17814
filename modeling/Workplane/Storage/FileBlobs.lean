import Workplane.Storage.FileTree
import Workplane.Text.Parts

/-!
# Blobs in files

Every blob is a file below a directory, at the path that its key spells.  A blob is written to a
temporary file beside its place first, which then takes its place in one step, so a reader never
sees a part of a blob.
-/

namespace Workplane.FileBlobs

/-! ### Keys -/

/-- The path that a key spells. -/
structure Location where
  path : Path
  /-- The key ends like the path of a directory. -/
  asDirectory : Bool
  deriving DecidableEq, Repr

/-- A part that adds no name to a path. -/
def isVoid (part : String) : Bool :=
  part == "" || part == "."

/-- The path of the parts of a key.  No part may lead upwards, and the first must be a name. -/
def locate (ps : List String) : Option Location :=
  if ps.contains ".." || ps.head?.all isVoid then none
  else some ⟨ps.filter fun part => !isVoid part, ps.getLast?.any isVoid⟩

/-- The path that a key spells after the slashes at its front; `none` if it leads out of the
directory or to the directory itself. -/
def Location.ofKey? (key : String) : Option Location :=
  locate ((Text.parts '/' (key.toList.dropWhile (· == '/'))).map String.ofList)

/-! ### Operations -/

/-- The steps of an operation that can fail. -/
inductive Step where
  | create
  | write
  | rename
  | read
  deriving DecidableEq, Repr

/-- What is done in a step. -/
def Step.name : Step → String
  | create => "creating"
  | write => "writing"
  | rename => "renaming"
  | read => "reading"

/-- Why an operation failed. -/
inductive Error where
  | invalidKey (key : String)
  | failed (step : Step) (cause : FileError)
  deriving DecidableEq, Repr

/-- The text of an error. -/
def Error.message : Error → String
  | invalidKey key => s!"invalid blob key '{key}'"
  | failed step _ => step.name

/-- The temporary path beside a path.  No other writer uses the same token. -/
def temporary (p : Path) (token : String) : Path :=
  let name := p.getLast?.getD ""
  p.dropLast ++ [s!".{name}.{token}.tmp"]

/-- Gives the bytes of a temporary file their place; the temporary file does not outlive a
failure. -/
def place (t : FileTree) (l : Location) (source : Path) : Except Error Unit × FileTree :=
  match t.rename source l.path l.asDirectory with
  | (.ok (), t) => (.ok (), t)
  | (.error e, t) => (.error (.failed .rename e), t.remove source)

/-- Writes the temporary file and gives it its place. -/
def writeAndPlace (t : FileTree) (l : Location) (source : Path) (data : ByteArray) :
    Except Error Unit × FileTree :=
  match t.write source data with
  | (.ok (), t) => place t l source
  | (.error e, t) => (.error (.failed .write e), t.remove source)

/-- Puts a blob at a path, in the place of another one. -/
def putAt (t : FileTree) (l : Location) (token : String) (data : ByteArray) :
    Except Error Unit × FileTree :=
  match t.createDirectories l.path.dropLast with
  | (.ok (), t) => writeAndPlace t l (temporary l.path token) data
  | (.error e, t) => (.error (.failed .create e), t)

/-- Puts a blob under a key, in the place of another one. -/
def put (t : FileTree) (key token : String) (data : ByteArray) : Except Error Unit × FileTree :=
  match Location.ofKey? key with
  | some l => putAt t l token data
  | none => (.error (.invalidKey key), t)

/-- The blob under a key, if there is one. -/
def get (t : FileTree) (key : String) : Except Error (Option ByteArray) :=
  match Location.ofKey? key with
  | none => .error (.invalidKey key)
  | some l =>
    match t.read l.path l.asDirectory with
    | .ok data => .ok (some data)
    | .error .notFound => .ok none
    | .error e => .error (.failed .read e)

end Workplane.FileBlobs
