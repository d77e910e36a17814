import Workplane.Proofs.Storage.FileBlobs

/-!
# The steps of a put

A put creates the directories on the way to its place one after another, opens its temporary file,
writes it in any number of pieces, and renames it; if one of these steps fails, it removes the
temporary file again.  `stepAt` is one of these steps, and `Moves` tells what a step can do to the
files.

A put on its own ends as `put` does, however much each piece takes (`Writer.put_eq_of_alone`).  It
ends after so many steps in any case, whatever else happens to the files (`Writer.left_step_lt`).
-/

namespace Workplane.FileBlobs

open FileTree (IsName)

/-! ### Steps -/

/-- A put that is called. -/
structure Writer where
  key : String
  /-- What sets its temporary file apart. -/
  token : String
  data : ByteArray

/-- How far a put is. -/
inductive Stage where
  | called
  /-- The directories `rest` are to be created from the directory `here` on; then the temporary file
  is opened. -/
  | creating (here rest : Path)
  /-- The temporary file holds so many bytes. -/
  | writing (written : Nat)
  /-- The put has failed, and the temporary file is to be removed. -/
  | removing (cause : Error)
  | ended (answer : Except Error Unit)

/-- What the surroundings decide about a step. -/
inductive Turn where
  /-- The file system does what it is asked for.  A piece that is written has one byte and so many
  more, as far as there are any. -/
  | done (more : Nat)
  /-- The file system refuses it, for a reason of its own. -/
  | refused (cause : FileError)

/-- The first bytes of a blob. -/
def front (data : ByteArray) (n : Nat) : ByteArray :=
  data.extract 0 n

/-- Gives the temporary file the first bytes of the blob. -/
def writeFront (t : FileTree) (source : Path) (data : ByteArray) (n : Nat) : FileTree × Stage :=
  match t.write source (front data n) with
  | (.ok (), t) => (t, .writing n)
  | (.error e, t) => (t, .removing (.failed .write e))

/-- Gives the temporary file its place. -/
def moveInto (t : FileTree) (l : Location) (source : Path) : FileTree × Stage :=
  match t.rename source l.path l.asDirectory with
  | (.ok (), t) => (t, .ended (.ok ()))
  | (.error e, t) => (t, .removing (.failed .rename e))

/-- Creates a directory if there is none. -/
def createNext (t : FileTree) (here : Path) (name : String) (rest : Path) : FileTree × Stage :=
  match t.createFrom here [name] with
  | (.ok (), t) => (t, .creating (here ++ [name]) rest)
  | (.error e, t) => (t, .ended (.error (.failed .create e)))

/-- One step of a put at a place.  The file system does not refuse to remove a file. -/
def stepAt (t : FileTree) (l : Location) (token : String) (data : ByteArray) (turn : Turn) :
    Stage → FileTree × Stage
  | .called =>
    if FileTree.isPath l.path.dropLast then (t, .creating [] l.path.dropLast)
    else (t, .ended (.error (.failed .create .invalidName)))
  | .creating here (name :: rest) =>
    match turn with
    | .done _ => createNext t here name rest
    | .refused e => (t, .ended (.error (.failed .create e)))
  | .creating _ [] =>
    match turn with
    | .done _ => writeFront t (temporary l.path token) data 0
    | .refused e => (t, .removing (.failed .write e))
  | .writing n =>
    match turn with
    | .done more =>
      if n < data.size then
        writeFront t (temporary l.path token) data (min data.size (n + 1 + more))
      else moveInto t l (temporary l.path token)
    | .refused e => (t, .removing (.failed (if n < data.size then .write else .rename) e))
  | .removing cause => (t.remove (temporary l.path token), .ended (.error cause))
  | .ended answer => (t, .ended answer)

/-- One step of a put. -/
def Writer.step (w : Writer) (t : FileTree) (turn : Turn) (stage : Stage) : FileTree × Stage :=
  match Location.ofKey? w.key, stage with
  | some l, stage => stepAt t l w.token w.data turn stage
  | none, .ended answer => (t, .ended answer)
  | none, _ => (t, .ended (.error (.invalidKey w.key)))

/-! ### What a step can do -/

/-- The put has not ended. -/
def Stage.IsGoing : Stage → Prop
  | ended _ => False
  | called | creating _ _ | writing _ | removing _ => True

/-- The temporary file has not been opened. -/
def Stage.IsEarly : Stage → Prop
  | called | creating _ _ => True
  | writing _ | removing _ | ended _ => False

/-- There may be a temporary file. -/
def Stage.HasFile : Stage → Prop
  | writing _ | removing _ => True
  | called | creating _ _ | ended _ => False

theorem Stage.IsEarly.not_hasFile {stage : Stage} (h : stage.IsEarly) : ¬stage.HasFile := by
  cases stage with
  | called | creating here rest => exact id
  | writing n | removing e | ended answer => exact absurd h id

theorem Stage.exists_eq_ended {stage : Stage} (h : ¬stage.IsGoing) :
    ∃ answer, stage = .ended answer := by
  cases stage with
  | called | creating here rest | writing n | removing e => exact absurd trivial h
  | ended answer => exact ⟨answer, rfl⟩

/-- What a put at a place relies on: the directories that it has created are there, and its
temporary file holds what it has written. -/
def OnTrack (t : FileTree) (l : Location) (token : String) (data : ByteArray) : Stage → Prop
  | .creating here rest =>
    here ++ rest = l.path.dropLast ∧ FileTree.isPath l.path.dropLast = true ∧
      t.look here = .ok .directory
  | .writing n =>
    n ≤ data.size ∧ t.look l.path.dropLast = .ok .directory ∧
      IsName (temporaryName (l.path.getLast?.getD "") token) ∧
      t.node? (temporary l.path token) = some (.file (front data n))
  | .called | .removing _ | .ended _ => True

/-- How a step of a put at a place leads from one stage to another, and what becomes of the files.
No step puts anything in the place of a directory, and what it puts is where its path leads. -/
inductive Moves (t : FileTree) (l : Location) (token : String) (data : ByteArray) :
    Stage → FileTree → Stage → Prop
  | starts (valid : FileTree.isPath l.path.dropLast = true) :
    Moves t l token data .called t (.creating [] l.path.dropLast)
  | enters {here rest : Path} {name : String}
    (there : t.node? (here ++ [name]) = some .directory)
    (look : t.look (here ++ [name]) = .ok .directory) :
    Moves t l token data (.creating here (name :: rest)) t (.creating (here ++ [name]) rest)
  | creates {here rest : Path} {name : String} (new : t.node? (here ++ [name]) = none)
    (look : (t.set (here ++ [name]) .directory).look (here ++ [name]) = .ok .directory) :
    Moves t l token data (.creating here (name :: rest)) (t.set (here ++ [name]) .directory)
      (.creating (here ++ [name]) rest)
  | fails {before : Stage} (early : before.IsEarly) (e : Error) :
    Moves t l token data before t (.ended (.error e))
  | writes {before : Stage} (going : before.IsGoing) {n : Nat} (le : n ≤ data.size)
    (dir : t.look l.path.dropLast = .ok .directory)
    (named : IsName (temporaryName (l.path.getLast?.getD "") token))
    (free : t.node? (temporary l.path token) ≠ some .directory) :
    Moves t l token data before (t.set (temporary l.path token) (.file (front data n))) (.writing n)
  | spoils {before : Stage} (going : before.IsGoing) (e : Error) :
    Moves t l token data before t (.removing e)
  | renames (plain : l.asDirectory = false) (dir : t.look l.path.dropLast = .ok .directory)
    (named : IsName (temporaryName (l.path.getLast?.getD "") token))
    (written : t.node? (temporary l.path token) = some (.file data))
    (free : t.node? l.path ≠ some .directory) :
    Moves t l token data (.writing data.size)
      ((t.erase (temporary l.path token)).set l.path (.file data)) (.ended (.ok ()))
  | removes (e : Error) :
    Moves t l token data (.removing e) (t.remove (temporary l.path token)) (.ended (.error e))
  | rests (answer : Except Error Unit) :
    Moves t l token data (.ended answer) t (.ended answer)

section Moves

variable {t : FileTree} {l : Location} {here rest : Path} {name token : String}
  {data : ByteArray} {stage : Stage} {n : Nat}

theorem front_size (data : ByteArray) : front data data.size = data :=
  ByteArray.extract_zero_size

/-- A temporary file can be written in its directory whatever its bytes are, or not. -/
theorem write_temporary_cases (l : Location) (token : String)
    (h : t.look l.path.dropLast = .ok .directory) :
    (∃ e, ∀ data, t.write (temporary l.path token) data = (.error e, t)) ∨
    IsName (temporaryName (l.path.getLast?.getD "") token) ∧
      t.node? (temporary l.path token) ≠ some .directory ∧
      ∀ data, t.write (temporary l.path token) data =
        (.ok (), t.set (temporary l.path token) (.file data)) :=
  FileTree.write_concat_cases _ h

theorem concat_path (hl : l.path ≠ []) :
    l.path.dropLast ++ [l.path.getLast?.getD ""] = l.path := by
  rw [List.getLast?_eq_some_getLast hl, Option.getD_some, List.dropLast_concat_getLast]

/-- A temporary file takes its place unless a directory is there or should be. -/
theorem rename_temporary_cases (hl : l.path ≠ []) (h : t.look l.path.dropLast = .ok .directory)
    (hname : IsName (temporaryName (l.path.getLast?.getD "") token))
    (hfile : t.node? (temporary l.path token) = some (.file data)) :
    (∃ e, t.rename (temporary l.path token) l.path l.asDirectory = (.error e, t)) ∨
    l.asDirectory = false ∧ t.node? l.path ≠ some .directory ∧
      t.rename (temporary l.path token) l.path l.asDirectory =
        (.ok (), (t.erase (temporary l.path token)).set l.path (.file data)) := by
  obtain ⟨path, asDirectory⟩ := l
  obtain ⟨dir, name, rfl⟩ : ∃ dir name, path = dir ++ [name] :=
    ⟨_, _, (List.dropLast_concat_getLast hl).symm⟩
  simp only [temporary_concat, List.dropLast_concat, List.getLast?_concat, Option.getD_some]
    at h hname hfile ⊢
  rw [FileTree.rename_concat h hname hfile (isName_of_temporaryName hname)]
  by_cases hdir : t.node? (dir ++ [name]) = some .directory
  · rw [if_pos hdir]
    exact Or.inl ⟨_, rfl⟩
  · rw [if_neg hdir]
    cases asDirectory with
    | true => exact Or.inl ⟨_, rfl⟩
    | false => exact Or.inr ⟨rfl, hdir, rfl⟩

/-- Creating the next directory is a move of the put. -/
theorem moves_createNext (h : t.look here = .ok .directory)
    (hpath : FileTree.isPath (here ++ name :: rest) = true) :
    Moves t l token data (.creating here (name :: rest)) (createNext t here name rest).1
      (createNext t here name rest).2 := by
  unfold createNext
  rw [FileTree.createFrom]
  have hnul : '\x00' ∉ name.toList := by
    simp only [FileTree.isPath, List.all_append, List.all_cons, Bool.and_eq_true] at hpath
    simpa using hpath.2.1
  by_cases hlength : FileTree.maxNameBytes < name.utf8ByteSize
  · rw [if_pos hlength]
    exact .fails (by trivial) _
  · rw [if_neg hlength]
    have hname : IsName name := ⟨hnul, Nat.not_lt.1 hlength⟩
    cases hnode : t.node? (here ++ [name]) with
    | none =>
      refine .creates hnode (FileTree.look_set_concat h hname ?_)
      simp [hnode]
    | some n =>
      cases n with
      | directory =>
        refine .enters hnode ?_
        rw [FileTree.look_concat h hname, hnode]
      | file bytes => exact .fails (by trivial) _

/-- Writing a front part of the data is a move of the put, whether it fails or not. -/
theorem moves_writeFront (hgoing : stage.IsGoing)
    (h : t.look l.path.dropLast = .ok .directory) (hn : n ≤ data.size) :
    Moves t l token data stage (writeFront t (temporary l.path token) data n).1
      (writeFront t (temporary l.path token) data n).2 := by
  unfold writeFront
  rcases write_temporary_cases l token h with ⟨e, hwrite⟩ | ⟨hname, hfree, hwrite⟩
  · rw [hwrite]
    exact .spoils hgoing _
  · rw [hwrite]
    exact .writes hgoing hn h hname hfree

/-- Moving the file into its place is the last move of the put. -/
theorem moves_moveInto (hl : l.path ≠ []) (h : t.look l.path.dropLast = .ok .directory)
    (hname : IsName (temporaryName (l.path.getLast?.getD "") token))
    (hfile : t.node? (temporary l.path token) = some (.file data)) :
    Moves t l token data (.writing data.size) (moveInto t l (temporary l.path token)).1
      (moveInto t l (temporary l.path token)).2 := by
  unfold moveInto
  rcases rename_temporary_cases hl h hname hfile with ⟨e, hrename⟩ | ⟨hplain, hfree, hrename⟩
  · rw [hrename]
    exact .spoils (by trivial) _
  · rw [hrename]
    exact .renames hplain h hname hfile hfree

/-- Every step of a put on its track is one of the moves. -/
theorem moves_stepAt (hl : l.path ≠ []) (h : OnTrack t l token data stage) (turn : Turn) :
    Moves t l token data stage (stepAt t l token data turn stage).1
      (stepAt t l token data turn stage).2 := by
  cases stage with
  | called =>
    rw [stepAt]
    by_cases hpath : FileTree.isPath l.path.dropLast = true
    · rw [if_pos hpath]
      exact .starts hpath
    · rw [if_neg hpath]
      exact .fails (by trivial) _
  | creating here rest =>
    obtain ⟨hrest, hpath, hlook⟩ := h
    cases rest with
    | nil =>
      -- All directories are there, so the temporary file is opened.
      rw [List.append_nil] at hrest
      cases turn with
      | done more => exact moves_writeFront (by trivial) (hrest ▸ hlook) (Nat.zero_le _)
      | refused e => exact .spoils (by trivial) _
    | cons name rest =>
      cases turn with
      | done more => exact moves_createNext hlook (hrest ▸ hpath)
      | refused e => exact .fails (by trivial) _
  | writing n =>
    obtain ⟨hn, hlook, hname, hfile⟩ := h
    cases turn with
    | done more =>
      rw [stepAt]
      by_cases hless : n < data.size
      · simp only [if_pos hless]
        exact moves_writeFront (by trivial) hlook (Nat.min_le_left _ _)
      · -- The temporary file holds the whole blob now.
        obtain rfl : n = data.size := Nat.le_antisymm hn (Nat.not_lt.1 hless)
        rw [front_size] at hfile
        simp only [if_neg hless]
        exact moves_moveInto hl hlook hname hfile
    | refused e => exact .spoils (by trivial) _
  | removing e => exact .removes e
  | ended answer => exact .rests answer

/-- A put stays on its track. -/
theorem onTrack_of_moves {t' : FileTree} {stage' : Stage} (h : OnTrack t l token data stage)
    (moves : Moves t l token data stage t' stage') : OnTrack t' l token data stage' := by
  cases moves with
  | starts valid => exact ⟨rfl, valid, rfl⟩
  | enters there look =>
    obtain ⟨hrest, hpath, -⟩ := h
    exact ⟨by rw [← hrest]; simp, hpath, look⟩
  | creates new look =>
    obtain ⟨hrest, hpath, -⟩ := h
    exact ⟨by rw [← hrest]; simp, hpath, look⟩
  | writes going le dir named free =>
    exact ⟨le, (FileTree.keepsDirectories_set free).look dir, named, FileTree.node?_set_self _ _ _⟩
  | fails early e => trivial
  | spoils going e => trivial
  | renames => trivial
  | removes e => trivial
  | rests answer => trivial

/-- A step changes no file but the temporary one and that of the place. -/
theorem file?_of_moves {t' : FileTree} {stage' : Stage} {q : Path}
    (moves : Moves t l token data stage t' stage') (hreached : t.IsReached)
    (hsource : q ≠ temporary l.path token) (hplace : q ≠ l.path) : t'.file? q = t.file? q := by
  cases moves with
  | starts | enters | fails | spoils | rests => rfl
  | creates new look => exact FileTree.file?_set_directory new
  | writes going le dir named free => rw [FileTree.file?_set_file, if_neg hsource]
  | renames plain dir named written free =>
    rw [FileTree.file?_set_file, if_neg hplace, FileTree.file?_erase, if_neg hsource]
  | removes e => rw [hreached.file?_remove, if_neg hsource]

/-- A put stays on its track while others keep the directories and its temporary file. -/
theorem OnTrack.mono {t' : FileTree} (h : OnTrack t l token data stage)
    (kept : t.KeepsDirectories t')
    (hfile : t'.file? (temporary l.path token) = t.file? (temporary l.path token)) :
    OnTrack t' l token data stage := by
  cases stage with
  | creating here rest =>
    obtain ⟨hrest, hpath, hlook⟩ := h
    exact ⟨hrest, hpath, kept.look hlook⟩
  | writing n =>
    obtain ⟨hn, hlook, hname, hnode⟩ := h
    rw [← FileTree.file?_eq_some_iff, ← hfile, FileTree.file?_eq_some_iff] at hnode
    exact ⟨hn, kept.look hlook, hname, hnode⟩
  | called => trivial
  | removing e => trivial
  | ended answer => trivial

/-- A step keeps a tree of files that are reached, and all of its directories. -/
theorem isReached_of_moves {t' : FileTree} {stage' : Stage} (hl : l.path ≠ [])
    (moves : Moves t l token data stage t' stage') (hmap : t.IsMap) (hreached : t.IsReached) :
    t'.IsMap ∧ t'.IsReached ∧ t.KeepsDirectories t' := by
  cases moves with
  | starts valid => exact ⟨hmap, hreached, t.keepsDirectories_refl⟩
  | enters there look => exact ⟨hmap, hreached, t.keepsDirectories_refl⟩
  | creates new look =>
    have hfree : t.node? (_ ++ [_]) ≠ some .directory := fun h => nomatch new.symm.trans h
    exact ⟨hmap.set _ _, hreached.set hfree look, FileTree.keepsDirectories_set hfree⟩
  | fails early e => exact ⟨hmap, hreached, t.keepsDirectories_refl⟩
  | writes going le dir named free =>
    exact ⟨hmap.set _ _, hreached.set free (FileTree.look_set_concat dir named free),
      FileTree.keepsDirectories_set free⟩
  | spoils going e => exact ⟨hmap, hreached, t.keepsDirectories_refl⟩
  | renames plain dir named written free =>
    -- The temporary file goes first, and what is on the way to the place stays.
    have hsource : t.node? (temporary l.path token) ≠ some .directory :=
      fun h => nomatch written.symm.trans h
    have herased := FileTree.keepsDirectories_erase hsource
    have hfree : (t.erase (temporary l.path token)).node? l.path ≠ some .directory := by
      rw [FileTree.node?_erase, if_neg (temporary_ne hl token).symm]
      exact free
    have hlook := FileTree.look_set_concat (n := .file data) (herased.look dir)
      (isName_of_temporaryName named)
    rw [concat_path hl] at hlook
    exact ⟨(hmap.erase _).set _ _, (hreached.erase hsource).set hfree (hlook hfree),
      herased.trans (FileTree.keepsDirectories_set hfree)⟩
  | removes e =>
    rcases hreached.remove_eq (temporary l.path token) with ⟨⟨bytes, hfile⟩, hremove⟩ | ⟨-, hremove⟩
    · have hfree : t.node? (temporary l.path token) ≠ some .directory :=
        fun h => nomatch hfile.symm.trans h
      rw [hremove]
      exact ⟨hmap.erase _, hreached.erase hfree, FileTree.keepsDirectories_erase hfree⟩
    · rw [hremove]
      exact ⟨hmap, hreached, t.keepsDirectories_refl⟩
  | rests answer => exact ⟨hmap, hreached, t.keepsDirectories_refl⟩

end Moves

/-! ### A put on its own -/

/-- What is left to do of a put at a place, if nothing else happens. -/
def finishAt (t : FileTree) (l : Location) (token : String) (data : ByteArray) :
    Stage → Except Error Unit × FileTree
  | .called => putAt t l token data
  | .creating here rest =>
    match t.createFrom here rest with
    | (.ok (), t) => writeAndPlace t l (temporary l.path token) data
    | (.error e, t) => (.error (.failed .create e), t)
  | .writing n =>
    if n < data.size then writeAndPlace t l (temporary l.path token) data
    else place t l (temporary l.path token)
  | .removing cause => (.error cause, t.remove (temporary l.path token))
  | .ended answer => (answer, t)

section Finish

variable {t : FileTree} {l : Location} {token : String} {data : ByteArray} {stage : Stage} {n : Nat}

/-- It makes no difference how much of the temporary file has been written before all of it is. -/
theorem finishAt_writeFront (h : t.look l.path.dropLast = .ok .directory) (hn : n ≤ data.size) :
    finishAt (writeFront t (temporary l.path token) data n).1 l token data
        (writeFront t (temporary l.path token) data n).2 =
      writeAndPlace t l (temporary l.path token) data := by
  unfold writeFront writeAndPlace
  rcases write_temporary_cases l token h with ⟨e, hwrite⟩ | ⟨hname, hfree, hwrite⟩
  · rw [hwrite, hwrite]
    rfl
  · rw [hwrite, hwrite]
    simp only [finishAt]
    by_cases hless : n < data.size
    · have hlook : (t.set (temporary l.path token) (.file (front data n))).look
          (temporary l.path token) = .ok (.file (front data n)) :=
        FileTree.look_set_concat h hname hfree
      rw [if_pos hless, writeAndPlace, FileTree.write, hlook]
      simp only [FileTree.set_set]
    · obtain rfl : n = data.size := Nat.le_antisymm hn (Nat.not_lt.1 hless)
      rw [if_neg hless, front_size]

/-- To move the file and to finish then is to place it. -/
theorem finishAt_moveInto (t : FileTree) (l : Location) (token : String) (data : ByteArray) :
    finishAt (moveInto t l (temporary l.path token)).1 l token data
        (moveInto t l (temporary l.path token)).2 = place t l (temporary l.path token) := by
  unfold moveInto place
  generalize t.rename (temporary l.path token) l.path l.asDirectory = renamed
  obtain ⟨_ | _, t'⟩ := renamed
  · rfl
  · rfl

/-- A step leaves the rest of the put to do. -/
theorem finishAt_stepAt (h : OnTrack t l token data stage) (more : Nat) :
    finishAt (stepAt t l token data (.done more) stage).1 l token data
      (stepAt t l token data (.done more) stage).2 = finishAt t l token data stage := by
  cases stage with
  | called =>
    cases hpath : FileTree.isPath l.path.dropLast with
    | true =>
      rcases hcreated : t.createFrom [] l.path.dropLast with ⟨_ | _, t'⟩
      · simp [stepAt, finishAt, putAt, FileTree.createDirectories, hpath, hcreated]
      · simp [stepAt, finishAt, putAt, FileTree.createDirectories, hpath, hcreated]
    | false => simp [stepAt, finishAt, putAt, FileTree.createDirectories, hpath]
  | creating here rest =>
    obtain ⟨hrest, -, hlook⟩ := h
    cases rest with
    | nil =>
      rw [List.append_nil] at hrest
      subst hrest
      exact finishAt_writeFront hlook (Nat.zero_le _)
    | cons name rest =>
      have hcons := FileTree.createFrom_cons t here name rest
      simp only [stepAt, createNext, finishAt, hcons]
      generalize t.createFrom here [name] = created
      obtain ⟨_ | _, t'⟩ := created
      · rfl
      · rfl
  | writing n =>
    obtain ⟨-, hlook, -, -⟩ := h
    simp only [stepAt]
    by_cases hless : n < data.size
    · rw [if_pos hless, finishAt_writeFront hlook (Nat.min_le_left _ _), finishAt, if_pos hless]
    · rw [if_neg hless, finishAt_moveInto, finishAt, if_neg hless]
  | removing e => rfl
  | ended answer => rfl

end Finish

namespace Writer

variable {w : Writer} {t : FileTree} {stage : Stage} {l : Location} {answer : Except Error Unit}

/-- How many steps a put makes from a stage on at most. -/
def left (w : Writer) : Stage → Nat
  | .called => (components w.key).length + w.data.size + 4
  | .creating _ rest => rest.length + w.data.size + 3
  | .writing n => w.data.size - n + 2
  | .removing _ => 1
  | .ended _ => 0

theorem step_eq (w : Writer) (t : FileTree) (turn : Turn) (stage : Stage)
    (hkey : Location.ofKey? w.key = some l) :
    w.step t turn stage = stepAt t l w.token w.data turn stage := by
  unfold step
  rw [hkey]

theorem step_ended (w : Writer) (t : FileTree) (turn : Turn) (answer : Except Error Unit) :
    w.step t turn (.ended answer) = (t, .ended answer) := by
  unfold step
  cases Location.ofKey? w.key with
  | none => rfl
  | some l => rfl

/-- A put under an invalid key is over after its first step. -/
theorem step_invalid (w : Writer) (t : FileTree) (turn : Turn) {stage : Stage}
    (hkey : Location.ofKey? w.key = none) (hgoing : stage.IsGoing) :
    w.step t turn stage = (t, .ended (.error (.invalidKey w.key))) := by
  unfold step
  rw [hkey]
  cases stage with
  | called | creating here rest | writing n | removing e => rfl
  | ended answer => exact absurd hgoing id

theorem left_pos (hgoing : stage.IsGoing) : 0 < w.left stage := by
  cases stage with
  | called | creating here rest | writing n | removing e => simp [left]
  | ended answer => exact absurd hgoing id

theorem left_writeFront_lt {n limit : Nat} {source : Path} (h : w.data.size - n + 2 < limit)
    (hlimit : 1 < limit) : w.left (writeFront t source w.data n).2 < limit := by
  unfold writeFront
  split
  · exact h
  · exact hlimit

/-- Every step brings a put nearer to its end, whatever it finds and whatever is refused. -/
theorem left_step_lt (w : Writer) (t : FileTree) (turn : Turn) {stage : Stage}
    (hgoing : stage.IsGoing) : w.left (w.step t turn stage).2 < w.left stage := by
  cases hkey : Location.ofKey? w.key with
  | none =>
    rw [w.step_invalid t turn hkey hgoing]
    exact left_pos hgoing
  | some l =>
    rw [w.step_eq t turn stage hkey]
    cases stage with
    | called =>
      have hlength : l.path.dropLast.length ≤ (components w.key).length := by
        rw [← path_of_ofKey? hkey, List.length_dropLast]
        exact Nat.sub_le _ _
      rw [stepAt]
      split
      · simp only [left]
        omega
      · simp [left]
    | creating here rest =>
      cases rest with
      | nil =>
        cases turn with
        | done more => exact left_writeFront_lt (by simp [left]) (by simp [left])
        | refused e => simp [stepAt, left]
      | cons name rest =>
        cases turn with
        | done more =>
          simp only [stepAt, createNext]
          split
          · simp [left]
          · simp [left]
        | refused e => simp [stepAt, left]
    | writing n =>
      cases turn with
      | done more =>
        simp only [stepAt]
        split
        -- At least one more byte is written.
        · refine left_writeFront_lt ?_ (by simp [left])
          simp only [left]
          omega
        -- The rename ends the put, or leaves a temporary file to be removed.
        · unfold moveInto
          split
          · simp [left]
          · simp [left]
      | refused e => simp [stepAt, left]
    | removing e => simp [stepAt, left]
    | ended answer => exact absurd hgoing id

/-- Every step leaves less to do. -/
theorem left_step_le (w : Writer) (t : FileTree) (turn : Turn) (stage : Stage) :
    w.left (w.step t turn stage).2 ≤ w.left stage - 1 := by
  by_cases hgoing : stage.IsGoing
  · have := w.left_step_lt t turn hgoing
    omega
  · obtain ⟨answer, rfl⟩ := Stage.exists_eq_ended hgoing
    rw [w.step_ended]
    exact Nat.le_refl _

theorem exists_eq_ended (h : w.left stage = 0) : ∃ answer, stage = .ended answer :=
  Stage.exists_eq_ended fun hgoing => absurd h (Nat.ne_of_gt (left_pos hgoing))

/-- What is left to do of a put, if nothing else happens. -/
def finish (w : Writer) (t : FileTree) (stage : Stage) : Except Error Unit × FileTree :=
  match Location.ofKey? w.key, stage with
  | some l, stage => finishAt t l w.token w.data stage
  | none, .ended answer => (answer, t)
  | none, _ => (.error (.invalidKey w.key), t)

theorem finish_eq (w : Writer) (t : FileTree) (stage : Stage)
    (hkey : Location.ofKey? w.key = some l) :
    w.finish t stage = finishAt t l w.token w.data stage := by
  unfold finish
  rw [hkey]

/-- To finish a put that has only been called is to put the blob. -/
theorem finish_called (w : Writer) (t : FileTree) :
    w.finish t .called = put t w.key w.token w.data := by
  unfold finish put
  cases Location.ofKey? w.key with
  | none => rfl
  | some l => rfl

theorem finish_ended (w : Writer) (t : FileTree) (answer : Except Error Unit) :
    w.finish t (.ended answer) = (answer, t) := by
  unfold finish
  cases Location.ofKey? w.key with
  | none => rfl
  | some l => rfl

/-- A step of a put on its track leaves it there, with the rest to do. -/
theorem finish_step (h : ∀ l, Location.ofKey? w.key = some l → OnTrack t l w.token w.data stage)
    (more : Nat) :
    (∀ l, Location.ofKey? w.key = some l → OnTrack (w.step t (.done more) stage).1 l w.token w.data
      (w.step t (.done more) stage).2) ∧
    w.finish (w.step t (.done more) stage).1 (w.step t (.done more) stage).2 =
      w.finish t stage := by
  cases hkey : Location.ofKey? w.key with
  | none =>
    refine ⟨nofun, ?_⟩
    cases stage with
    | called | creating here rest | writing n | removing e =>
      rw [w.step_invalid t _ hkey (by trivial), finish_ended]
      unfold finish
      rw [hkey]
    | ended answer => rw [w.step_ended]
  | some l =>
    have onTrack := h l hkey
    have moves := moves_stepAt (isBelow_of_ofKey? hkey).ne_nil onTrack (.done more)
    rw [w.step_eq _ _ _ hkey, w.finish_eq _ _ hkey, w.finish_eq _ _ hkey]
    refine ⟨?_, finishAt_stepAt onTrack more⟩
    rintro _ ⟨⟩
    exact onTrack_of_moves onTrack moves

/-- The steps of a put that nothing else comes between, with how much each piece takes. -/
def alone (w : Writer) (t : FileTree) (mores : List Nat) : FileTree × Stage :=
  mores.foldl (fun s more => w.step s.1 (.done more) s.2) (t, .called)

/-- Steps of its own change nothing about how a put will finish. -/
theorem foldl_step (w : Writer) (mores : List Nat) (s : FileTree × Stage)
    (h : ∀ l, Location.ofKey? w.key = some l → OnTrack s.1 l w.token w.data s.2) :
    w.finish (mores.foldl (fun s more => w.step s.1 (.done more) s.2) s).1
        (mores.foldl (fun s more => w.step s.1 (.done more) s.2) s).2 = w.finish s.1 s.2 ∧
      w.left (mores.foldl (fun s more => w.step s.1 (.done more) s.2) s).2 ≤
        w.left s.2 - mores.length := by
  induction mores generalizing s with
  | nil => exact ⟨rfl, Nat.le_refl _⟩
  | cons more mores ih =>
    obtain ⟨onTrack, hfinish⟩ := finish_step h more
    obtain ⟨hrest, hleft⟩ := ih (w.step s.1 (.done more) s.2) onTrack
    have hstep := w.left_step_le s.1 (.done more) s.2
    refine ⟨hrest.trans hfinish, Nat.le_trans hleft ?_⟩
    rw [List.length_cons]
    omega

/-- A put on its own ends as `put` does. -/
theorem put_eq_of_alone (w : Writer) (t : FileTree) (mores : List Nat)
    (hlong : w.left .called ≤ mores.length) : ∃ answer,
    (w.alone t mores).2 = .ended answer ∧
      put t w.key w.token w.data = (answer, (w.alone t mores).1) := by
  obtain ⟨hfinish, hleft⟩ := w.foldl_step mores (t, .called) fun _ _ => trivial
  rw [Nat.sub_eq_zero_of_le hlong] at hleft
  obtain ⟨answer, hended⟩ := exists_eq_ended (Nat.le_zero.1 hleft)
  rw [hended, finish_ended, finish_called] at hfinish
  exact ⟨answer, hended, hfinish.symm⟩

end Writer

end Workplane.FileBlobs
