/-!
# File trees

The part of a file system below one directory: which paths are directories and which are files.
A path is the list of its names from that directory on.  Every operation looks its path up name
by name, so a path leads on only through directories.
-/

namespace Workplane

-- Byte arrays are compared by core's instance, whatever is in scope beside this module.
attribute [local instance (high)] ByteArray.instDecidableEq

/-- The names from the root directory to a file or a directory. -/
abbrev Path := List String

/-- Why an operation on a path failed. -/
inductive FileError where
  | notFound
  /-- The path leads through a file, or a file is named as a directory. -/
  | notDirectory
  | isDirectory
  | nameTooLong
  /-- A name holds the character that no name can hold. -/
  | invalidName
  deriving DecidableEq, Repr

/-- What is at a path. -/
inductive FileNode where
  | directory
  | file (data : ByteArray)
  deriving DecidableEq

/-- The directories and files below a root directory, which itself is not listed. -/
structure FileTree where
  nodes : List (Path × FileNode)

namespace FileTree

/-- A root directory with nothing in it. -/
def empty : FileTree := ⟨[]⟩

/-- The longest name, in bytes. -/
def maxNameBytes : Nat := 255

/-- Every name of a path can be a name. -/
def isPath (p : Path) : Bool :=
  p.all fun name => !name.toList.contains '\x00'

/-- What is listed under a path. -/
def node? (t : FileTree) (p : Path) : Option FileNode :=
  t.nodes.lookup p

/-- The tree with something at a path, in the place of what was there. -/
def set (t : FileTree) (p : Path) (n : FileNode) : FileTree :=
  ⟨(p, n) :: t.nodes.filter fun m => m.1 != p⟩

/-- The tree without what is at a path. -/
def erase (t : FileTree) (p : Path) : FileTree :=
  ⟨t.nodes.filter fun m => m.1 != p⟩

theorem node?_set_self (t : FileTree) (p : Path) (n : FileNode) :
    (t.set p n).node? p = some n := by
  simp [set, node?]

theorem node?_erase_self (t : FileTree) (p : Path) : (t.erase p).node? p = none := by
  simp only [erase, node?, List.lookup_eq_none_iff, List.mem_filter]
  rintro m ⟨_, hm⟩
  exact bne_comm.trans hm

/-- Looks names up, one within another, from the directory `here` on. -/
def walk (t : FileTree) (here : Path) : List String → Except FileError FileNode
  | [] => .ok .directory
  | name :: rest =>
    if maxNameBytes < name.utf8ByteSize then .error .nameTooLong
    else match t.node? (here ++ [name]) with
    | none => .error .notFound
    | some .directory => walk t (here ++ [name]) rest
    | some (.file data) => if rest.isEmpty then .ok (.file data) else .error .notDirectory

/-- What a path leads to. -/
def look (t : FileTree) (p : Path) : Except FileError FileNode :=
  if isPath p then t.walk [] p else .error .invalidName

/-! ### Operations -/

/-- Creates the directories `rest` one within another from the directory `here` on; those created
before a failure stay. -/
def createFrom (t : FileTree) (here : Path) : List String → Except FileError Unit × FileTree
  | [] => (.ok (), t)
  | name :: rest =>
    if maxNameBytes < name.utf8ByteSize then (.error .nameTooLong, t)
    else match t.node? (here ++ [name]) with
    | none => (t.set (here ++ [name]) .directory).createFrom (here ++ [name]) rest
    | some .directory => t.createFrom (here ++ [name]) rest
    | some (.file _) => (.error .notDirectory, t)

/-- Creates a directory and those on the way to it, as far as they are missing. -/
def createDirectories (t : FileTree) (p : Path) : Except FileError Unit × FileTree :=
  if isPath p then t.createFrom [] p else (.error .invalidName, t)

/-- The bytes of a file.  A path that is written like that of a directory leads to no file. -/
def read (t : FileTree) (p : Path) (asDirectory : Bool) : Except FileError ByteArray :=
  match t.look p with
  | .ok (.file data) => if asDirectory then .error .notDirectory else .ok data
  | .ok .directory => .error .isDirectory
  | .error e => .error e

/-- Writes a file in an existing directory, over another one. -/
def write (t : FileTree) (p : Path) (data : ByteArray) : Except FileError Unit × FileTree :=
  match t.look p with
  | .ok (.file _) => (.ok (), t.set p (.file data))
  | .ok .directory => (.error .isDirectory, t)
  | .error .notFound =>
    if t.look p.dropLast matches .ok .directory then (.ok (), t.set p (.file data))
    else (.error .notFound, t)
  | .error e => (.error e, t)

/-- Gives a file another path, over another file there.  A path that is written like that of a
directory can take no file. -/
def rename (t : FileTree) (source target : Path) (asDirectory : Bool) :
    Except FileError Unit × FileTree :=
  match t.read source false with
  | .error e => (.error e, t)
  | .ok data =>
    match t.look target with
    | .ok .directory => (.error .isDirectory, t)
    | .error .notFound | .ok (.file _) =>
      if asDirectory then (.error .notDirectory, t)
      else (.ok (), (t.erase source).set target (.file data))
    | .error e => (.error e, t)

/-- Removes a file if there is one. -/
def remove (t : FileTree) (p : Path) : FileTree :=
  match t.look p with
  | .ok (.file _) => t.erase p
  | _ => t

/-- The files with their bytes. -/
def files (t : FileTree) : List (Path × ByteArray) :=
  t.nodes.filterMap fun
    | (p, .file data) => some (p, data)
    | (_, .directory) => none

end FileTree

end Workplane
