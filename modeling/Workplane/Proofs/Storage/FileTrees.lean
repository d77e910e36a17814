import Workplane.Storage.BlobMap
import Workplane.Storage.FileTree

/-!
# Laws of file trees

What the operations on a file tree do to the nodes at each path.  Creating directories adds
directories on one path and nothing else, whether it succeeds or not (`FileTree.createFrom_grown`);
after a success the path leads to a directory.  Writing and renaming in such a directory are told
case by case (`FileTree.write_concat`, `FileTree.rename_concat`): there only the last name matters.

A path leads to the same node in every tree that keeps the nodes on the way (`FileTree.walk_kept`).
Where files take the place of files only, no directory is lost (`FileTree.KeepsDirectories`), and
whatever is listed stays where its path leads (`FileTree.IsReached`).
-/

namespace Workplane.FileTree

variable {t t' : FileTree} {p q here rest : Path} {n : FileNode} {name : String}

/-! ### Nodes -/

/-- What is put at a path is there, and nothing else has changed. -/
theorem node?_set : (t.set p n).node? q = if q = p then some n else t.node? q := by
  by_cases h : q = p
  · subst h
    rw [if_pos rfl, node?_set_self]
  · have hne : (q == p) = false := beq_eq_false_iff_ne.2 h
    rw [if_neg h]
    unfold node? set
    rw [List.lookup_cons, hne]
    exact BlobMap.lookup_filter_of_ne (Ne.symm h) t.nodes

/-- What is removed from a path is not there any more, and nothing else has changed. -/
theorem node?_erase : (t.erase p).node? q = if q = p then none else t.node? q := by
  by_cases h : q = p
  · subst h
    rw [if_pos rfl, node?_erase_self]
  · rw [if_neg h]
    exact BlobMap.lookup_filter_of_ne (Ne.symm h) t.nodes

theorem node?_eq_none_iff : t.node? p = none ↔ ∀ m ∈ t.nodes, m.1 ≠ p := by
  unfold node?
  rw [List.lookup_eq_none_iff]
  exact forall₂_congr fun m _ => bne_iff_ne.trans ne_comm

/-- Removing something that is not there changes nothing. -/
theorem erase_of_node?_eq_none (h : t.node? p = none) : t.erase p = t := by
  have hkeep : (t.nodes.filter fun m => m.1 != p) = t.nodes :=
    List.filter_eq_self.2 fun m hm => bne_iff_ne.2 (node?_eq_none_iff.1 h m hm)
  rw [erase, hkeep]

/-- Something new that is removed again has left no trace. -/
theorem erase_set (h : t.node? p = none) : (t.set p n).erase p = t := by
  have hdrop : ((p, n) :: t.nodes.filter fun m => m.1 != p).filter (fun m => m.1 != p) =
      t.nodes.filter fun m => m.1 != p := by
    rw [List.filter_cons, bne_self_eq_false, if_neg Bool.false_ne_true, List.filter_filter]
    simp only [Bool.and_self]
  rw [set, erase, hdrop]
  exact erase_of_node?_eq_none h

/-- Only what is put last at a path is there. -/
theorem set_set (t : FileTree) (p : Path) (m n : FileNode) : (t.set p m).set p n = t.set p n := by
  simp [set]

/-! ### Files -/

/-- Every path is listed once. -/
def IsMap (t : FileTree) : Prop :=
  (t.nodes.map Prod.fst).Nodup

theorem isMap_empty : empty.IsMap :=
  List.nodup_nil

theorem IsMap.set (h : t.IsMap) (p : Path) (n : FileNode) : (t.set p n).IsMap := by
  refine List.nodup_cons.2 ⟨fun hmem => ?_, ?_⟩
  · obtain ⟨m, hm, hp⟩ := List.mem_map.1 hmem
    exact bne_iff_ne.1 (List.mem_filter.1 hm).2 hp
  · exact h.sublist (List.filter_sublist.map _)

theorem IsMap.erase (h : t.IsMap) (p : Path) : (t.erase p).IsMap :=
  h.sublist (List.filter_sublist.map _)

/-- With one node at a path, being listed with it is being found at it. -/
theorem IsMap.mem_nodes_iff (h : t.IsMap) : (p, n) ∈ t.nodes ↔ t.node? p = some n := by
  unfold IsMap at h
  unfold node?
  generalize t.nodes = nodes at h
  induction nodes with
  | nil => simp
  | cons m nodes ih =>
    obtain ⟨path, node⟩ := m
    obtain ⟨hnew, hrest⟩ := List.nodup_cons.1 h
    rw [List.mem_cons, List.lookup_cons]
    by_cases hp : p = path
    · subst hp
      have hother : (p, n) ∉ nodes := fun hmem => hnew (List.mem_map.2 ⟨(p, n), hmem, rfl⟩)
      simp [hother, eq_comm]
    · have hne : (p == path) = false := beq_eq_false_iff_ne.2 hp
      rw [hne, ih hrest]
      simp [hp]

/-- The files that are listed are those that are found. -/
theorem mem_files_iff (h : t.IsMap) {data : ByteArray} :
    (p, data) ∈ t.files ↔ t.node? p = some (.file data) := by
  rw [← h.mem_nodes_iff]
  unfold files
  rw [List.mem_filterMap]
  constructor
  · rintro ⟨⟨path, node⟩, hmem, hfile⟩
    cases node with
    | directory => exact nomatch hfile
    | file bytes =>
      obtain ⟨rfl, rfl⟩ := Prod.mk.inj (Option.some.inj hfile)
      exact hmem
  · intro hmem
    exact ⟨_, hmem, rfl⟩

/-- The paths of the files are distinct. -/
theorem nodup_files (h : t.IsMap) : (t.files.map Prod.fst).Nodup := by
  refine h.sublist ?_
  unfold files
  generalize t.nodes = nodes
  induction nodes with
  | nil => exact .slnil
  | cons m nodes ih =>
    obtain ⟨path, node⟩ := m
    cases node with
    | directory => exact ih.cons path
    | file data => exact ih.cons_cons path

/-- A new directory is no file. -/
theorem files_set_directory (h : t.node? p = none) : (t.set p .directory).files = t.files := by
  have hkeep : (t.nodes.filter fun m => m.1 != p) = t.nodes :=
    List.filter_eq_self.2 fun m hm => bne_iff_ne.2 (node?_eq_none_iff.1 h m hm)
  unfold files set
  rw [hkeep]
  rfl

/-- The bytes of the file that is listed under a path. -/
def file? (t : FileTree) (p : Path) : Option ByteArray :=
  match t.node? p with
  | some (.file data) => some data
  | some .directory | none => none

theorem file?_eq_some_iff {data : ByteArray} :
    t.file? p = some data ↔ t.node? p = some (.file data) := by
  unfold file?
  cases t.node? p with
  | none => simp
  | some n => cases n <;> simp

theorem file?_set_file {data : ByteArray} :
    (t.set p (.file data)).file? q = if q = p then some data else t.file? q := by
  unfold file?
  rw [node?_set]
  by_cases hq : q = p
  · rw [if_pos hq, if_pos hq]
  · rw [if_neg hq, if_neg hq]

theorem file?_set_directory (h : t.node? p = none) :
    (t.set p .directory).file? q = t.file? q := by
  unfold file?
  rw [node?_set]
  by_cases hq : q = p
  · subst hq
    rw [if_pos rfl, h]
  · rw [if_neg hq]

theorem file?_erase : (t.erase p).file? q = if q = p then none else t.file? q := by
  unfold file?
  rw [node?_erase]
  by_cases hq : q = p
  · rw [if_pos hq, if_pos hq]
  · rw [if_neg hq, if_neg hq]

/-! ### Where paths lead -/

/-- A path that leads somewhere leads there in every tree that keeps the directories, and the node
at its end. -/
theorem walk_kept (h : t.walk here rest = .ok n)
    (directories : ∀ q, t.node? q = some .directory → t'.node? q = some .directory)
    (last : ∀ m, t.node? (here ++ rest) = some m → t'.node? (here ++ rest) = some m) :
    t'.walk here rest = .ok n := by
  -- Along the path: every node but the last one is a directory, only the last may be a file.
  induction rest generalizing here with
  | nil => exact h
  | cons name rest ih =>
    rw [walk] at h ⊢
    split at h
    · exact nomatch h
    rename_i hlength
    rw [if_neg hlength]
    split at h
    · exact nomatch h
    · rename_i hnode
      rw [directories _ hnode]
      exact ih h (by simpa using last)
    · rename_i data hnode
      split at h
      · rename_i hrest
        obtain rfl := List.isEmpty_iff.1 hrest
        rw [last _ hnode]
        exact h
      · exact nomatch h

/-- A path that leads to a file is listed with it. -/
theorem node?_of_walk {data : ByteArray} (h : t.walk here rest = .ok (.file data)) :
    t.node? (here ++ rest) = some (.file data) := by
  induction rest generalizing here with
  | nil => exact nomatch h
  | cons name rest ih =>
    rw [walk] at h
    split at h
    · exact nomatch h
    split at h
    · exact nomatch h
    · simpa using ih h
    · rename_i bytes hnode
      split at h
      · rename_i hrest
        obtain rfl := List.isEmpty_iff.1 hrest
        obtain rfl := FileNode.file.inj (Except.ok.inj h)
        exact hnode
      · exact nomatch h

/-- In a directory, a name leads to what is listed there. -/
theorem walk_concat (h : t.walk here rest = .ok .directory) :
    t.walk here (rest ++ [name]) =
      if maxNameBytes < name.utf8ByteSize then .error .nameTooLong
      else match t.node? (here ++ rest ++ [name]) with
      | none => .error .notFound
      | some n => .ok n := by
  induction rest generalizing here with
  | nil =>
    rw [List.nil_append, List.append_nil, walk]
    split
    · rfl
    · cases t.node? (here ++ [name]) with
      | none => rfl
      | some n => cases n <;> rfl
  | cons first rest ih =>
    rw [List.cons_append]
    rw [walk] at h ⊢
    split at h
    · exact nomatch h
    rename_i hlength
    rw [if_neg hlength]
    split at h
    · exact nomatch h
    · rename_i hnode
      simp only [ih h, List.append_assoc, List.cons_append, List.nil_append]
    · split at h <;> exact nomatch h

/-- The name can be the name of something. -/
def IsName (name : String) : Prop :=
  '\x00' ∉ name.toList ∧ name.utf8ByteSize ≤ maxNameBytes

theorem isPath_concat : isPath (p ++ [name]) = (isPath p && !name.toList.contains '\x00') := by
  simp [isPath]

theorem look_eq_ok_iff : t.look p = .ok n ↔ isPath p = true ∧ t.walk [] p = .ok n := by
  unfold look
  by_cases hp : isPath p = true
  · rw [if_pos hp]
    exact (and_iff_right hp).symm
  · rw [if_neg hp]
    exact iff_of_false nofun fun h => hp h.1

/-- The file that a path leads to is at that path. -/
theorem node?_of_look {data : ByteArray} (h : t.look p = .ok (.file data)) :
    t.node? p = some (.file data) :=
  node?_of_walk (look_eq_ok_iff.1 h).2

/-- A path leads where it led if its directories and what is at its end are kept. -/
theorem look_kept (h : t.look p = .ok n)
    (directories : ∀ q, t.node? q = some .directory → t'.node? q = some .directory)
    (last : ∀ m, t.node? p = some m → t'.node? p = some m) : t'.look p = .ok n := by
  obtain ⟨hp, hwalk⟩ := look_eq_ok_iff.1 h
  exact look_eq_ok_iff.2 ⟨hp, walk_kept hwalk directories last⟩

/-- What a name in a directory leads to, if it is the name of anything. -/
theorem look_concat (h : t.look p = .ok .directory) (hname : IsName name) :
    t.look (p ++ [name]) =
      match t.node? (p ++ [name]) with
      | none => .error .notFound
      | some n => .ok n := by
  obtain ⟨hp, hwalk⟩ := look_eq_ok_iff.1 h
  have hpath : isPath (p ++ [name]) = true := by
    rw [isPath_concat, hp]
    simpa using hname.1
  have hlength : ¬maxNameBytes < name.utf8ByteSize := Nat.not_lt.2 hname.2
  rw [look, if_pos hpath, walk_concat hwalk, if_neg hlength, List.nil_append]

/-- A name that nothing can have leads nowhere. -/
theorem exists_look_concat_eq_error (h : t.look p = .ok .directory) (hname : ¬IsName name) :
    ∃ e, e ≠ .notFound ∧ t.look (p ++ [name]) = .error e := by
  obtain ⟨hp, hwalk⟩ := look_eq_ok_iff.1 h
  by_cases hnul : '\x00' ∈ name.toList
  · refine ⟨.invalidName, by decide, ?_⟩
    have hpath : ¬isPath (p ++ [name]) = true := by
      rw [isPath_concat]
      simp [hnul]
    rw [look, if_neg hpath]
  · refine ⟨.nameTooLong, by decide, ?_⟩
    have hpath : isPath (p ++ [name]) = true := by
      rw [isPath_concat, hp]
      simpa using hnul
    have hlength : maxNameBytes < name.utf8ByteSize :=
      Nat.lt_of_not_le fun hle => hname ⟨hnul, hle⟩
    rw [look, if_pos hpath, walk_concat hwalk, if_pos hlength]

/-! ### Trees that keep their directories -/

/-- What is a directory in a tree is one in another. -/
def KeepsDirectories (t t' : FileTree) : Prop :=
  ∀ q, t.node? q = some .directory → t'.node? q = some .directory

theorem keepsDirectories_refl (t : FileTree) : KeepsDirectories t t :=
  fun _ h => h

theorem KeepsDirectories.trans {t'' : FileTree} (h : KeepsDirectories t t')
    (h' : KeepsDirectories t' t'') : KeepsDirectories t t'' :=
  fun q hq => h' q (h q hq)

/-- Only putting something in the place of a directory takes a directory away. -/
theorem keepsDirectories_set (h : t.node? p ≠ some .directory) :
    KeepsDirectories t (t.set p n) := by
  intro q hq
  have hne : q ≠ p := by
    rintro rfl
    exact h hq
  rw [node?_set, if_neg hne, hq]

theorem keepsDirectories_erase (h : t.node? p ≠ some .directory) :
    KeepsDirectories t (t.erase p) := by
  intro q hq
  have hne : q ≠ p := by
    rintro rfl
    exact h hq
  rw [node?_erase, if_neg hne, hq]

/-- A walk to a directory is kept with the directories. -/
theorem KeepsDirectories.walk (kept : KeepsDirectories t t')
    (h : t.walk here rest = .ok .directory) : t'.walk here rest = .ok .directory := by
  induction rest generalizing here with
  | nil => exact h
  | cons name rest ih =>
    rw [FileTree.walk] at h ⊢
    split at h
    · exact nomatch h
    rename_i hlength
    rw [if_neg hlength]
    split at h
    · exact nomatch h
    · rename_i hnode
      rw [kept _ hnode]
      exact ih h
    · split at h <;> exact nomatch h

/-- A path to a directory is kept with the directories. -/
theorem KeepsDirectories.look (kept : KeepsDirectories t t') (h : t.look p = .ok .directory) :
    t'.look p = .ok .directory := by
  obtain ⟨hp, hwalk⟩ := look_eq_ok_iff.1 h
  exact look_eq_ok_iff.2 ⟨hp, kept.walk hwalk⟩

/-- What is put in a directory, in the place of no directory, is what its path leads to. -/
theorem look_set_concat (h : t.look p = .ok .directory) (hname : IsName name)
    (hfree : t.node? (p ++ [name]) ≠ some .directory) :
    (t.set (p ++ [name]) n).look (p ++ [name]) = .ok n := by
  rw [look_concat ((keepsDirectories_set hfree).look h) hname, node?_set_self]

/-! ### Trees in which everything is reached -/

/-- Whatever is listed is what its path leads to. -/
def IsReached (t : FileTree) : Prop :=
  ∀ p n, t.node? p = some n → t.look p = .ok n

theorem isReached_empty : empty.IsReached :=
  fun _ _ => nofun

/-- What a path leads to may be put at its end. -/
theorem IsReached.set (h : t.IsReached) (hfree : t.node? p ≠ some .directory)
    (hlook : (t.set p n).look p = .ok n) : (t.set p n).IsReached := by
  intro q m hm
  by_cases hq : q = p
  · subst hq
    rw [node?_set_self] at hm
    obtain rfl := Option.some.inj hm
    exact hlook
  · have hsame : (t.set p n).node? q = t.node? q := by rw [node?_set, if_neg hq]
    rw [hsame] at hm
    exact look_kept (h q m hm) (keepsDirectories_set hfree) fun m hm => hsame.trans hm

theorem IsReached.erase (h : t.IsReached) (hfree : t.node? p ≠ some .directory) :
    (t.erase p).IsReached := by
  intro q m hm
  have hne : q ≠ p := by
    rintro rfl
    rw [node?_erase_self] at hm
    exact nomatch hm
  have hsame : (t.erase p).node? q = t.node? q := by rw [node?_erase, if_neg hne]
  rw [hsame] at hm
  exact look_kept (h q m hm) (keepsDirectories_erase hfree) fun m hm => hsame.trans hm

theorem file?_of_read {asDirectory : Bool} {data : ByteArray}
    (h : t.read p asDirectory = .ok data) : t.file? p = some data := by
  unfold read at h
  split at h
  · rename_i bytes hlook
    split at h
    · exact nomatch h
    · obtain rfl := Except.ok.inj h
      exact file?_eq_some_iff.2 (node?_of_look hlook)
  · exact nomatch h
  · exact nomatch h

/-- Only what is not listed is not found. -/
theorem IsReached.file?_of_read (h : t.IsReached) {asDirectory : Bool}
    (hread : t.read p asDirectory = .error .notFound) : t.file? p = none := by
  cases hfile : t.file? p with
  | none => rfl
  | some data =>
    rw [read, h p _ (file?_eq_some_iff.1 hfile)] at hread
    cases asDirectory with
    | true => exact nomatch hread
    | false => exact nomatch hread

/-- Removing changes something only where a file is. -/
theorem IsReached.remove_eq (h : t.IsReached) (p : Path) :
    (∃ data, t.node? p = some (.file data)) ∧ t.remove p = t.erase p ∨
    t.file? p = none ∧ t.remove p = t := by
  unfold remove
  cases hfile : t.file? p with
  | some data =>
    have hnode := file?_eq_some_iff.1 hfile
    rw [h p _ hnode]
    exact Or.inl ⟨⟨data, hnode⟩, rfl⟩
  | none =>
    refine Or.inr ⟨rfl, ?_⟩
    split
    · rename_i data hlook
      exact nomatch hfile.symm.trans (file?_eq_some_iff.2 (node?_of_look hlook))
    · rfl

/-- Removing a file takes that one away and no other. -/
theorem IsReached.file?_remove (h : t.IsReached) :
    (t.remove p).file? q = if q = p then none else t.file? q := by
  rcases h.remove_eq p with ⟨-, hremove⟩ | ⟨hfile, hremove⟩
  · rw [hremove, file?_erase]
  · rw [hremove]
    by_cases hq : q = p
    · subst hq
      rw [if_pos rfl, hfile]
    · rw [if_neg hq]

/-! ### Creating directories -/

/-- A tree has got new directories on the path `p`, and nothing else. -/
structure Grown (p : Path) (t t' : FileTree) : Prop where
  kept : ∀ q n, t.node? q = some n → t'.node? q = some n
  added : ∀ q n, t'.node? q = some n → t.node? q = some n ∨ n = .directory ∧ q ≠ [] ∧ q <+: p
  files : t'.files = t.files
  isMap : t.IsMap → t'.IsMap

theorem grown_refl (p : Path) (t : FileTree) : Grown p t t :=
  ⟨fun _ _ h => h, fun _ _ h => Or.inl h, rfl, id⟩

theorem grown_set (hp : p ≠ []) (hfront : p <+: q) (h : t.node? p = none) :
    Grown q t (t.set p .directory) := by
  refine ⟨fun path n hn => ?_, fun path n hn => ?_, files_set_directory h, fun ht => ht.set p _⟩
  · have hne : path ≠ p := by
      rintro rfl
      exact nomatch h.symm.trans hn
    rw [node?_set, if_neg hne, hn]
  · rw [node?_set] at hn
    split at hn
    · rename_i heq
      subst heq
      exact Or.inr ⟨(Option.some.inj hn).symm, hp, hfront⟩
    · exact Or.inl hn

theorem Grown.trans {t'' : FileTree} (h : Grown p t t') (h' : Grown p t' t'') : Grown p t t'' := by
  refine ⟨fun q n hn => h'.kept q n (h.kept q n hn), fun q n hn => ?_, h'.files.trans h.files,
    fun ht => h'.isMap (h.isMap ht)⟩
  rcases h'.added q n hn with hn | hnew
  · exact h.added q n hn
  · exact Or.inr hnew

/-- Nothing in the directory at the end of the path is on the way to it. -/
theorem Grown.node?_concat (h : Grown p t t') (name : String) :
    t'.node? (p ++ [name]) = t.node? (p ++ [name]) := by
  cases hnode : t.node? (p ++ [name]) with
  | some n => exact h.kept _ n hnode
  | none =>
    cases hnode' : t'.node? (p ++ [name]) with
    | none => rfl
    | some n =>
      rcases h.added _ n hnode' with hold | ⟨-, -, hfront⟩
      · exact nomatch hnode.symm.trans hold
      · have hlength := hfront.length_le
        rw [List.length_append, List.length_singleton] at hlength
        omega

/-- Creating directories adds directories on the way, whether it succeeds or not. -/
theorem createFrom_grown (t : FileTree) (here rest : Path) :
    Grown (here ++ rest) t (t.createFrom here rest).2 := by
  induction rest generalizing t here with
  | nil => exact grown_refl _ t
  | cons name rest ih =>
    have hpath : here ++ name :: rest = here ++ [name] ++ rest := by simp
    rw [createFrom, hpath]
    split
    · exact grown_refl _ t
    split
    · -- What is new now stays when the creation fails further on.
      rename_i hnode
      have hset : Grown (here ++ [name] ++ rest) t (t.set (here ++ [name]) .directory) :=
        grown_set (by simp) (List.prefix_append _ _) hnode
      exact hset.trans (ih _ _)
    · exact ih t _
    · exact grown_refl _ t

/-- Directories are created one after another. -/
theorem createFrom_cons (t : FileTree) (here : Path) (name : String) (rest : Path) :
    t.createFrom here (name :: rest) =
      match t.createFrom here [name] with
      | (.ok (), t) => t.createFrom (here ++ [name]) rest
      | (.error e, t) => (.error e, t) := by
  simp only [createFrom]
  split
  · rfl
  · split
    · rfl
    · rfl
    · rfl

/-- After a success, the path leads to a directory. -/
theorem walk_createFrom (h : (t.createFrom here rest).1 = .ok ()) :
    (t.createFrom here rest).2.walk here rest = .ok .directory := by
  induction rest generalizing t here with
  | nil => rfl
  | cons name rest ih =>
    -- The directory of the first name is there, new or not, and stays while the others are created.
    have hfirst (t₁ : FileTree) (hnode : t₁.node? (here ++ [name]) = some .directory) :
        (t₁.createFrom (here ++ [name]) rest).2.node? (here ++ [name]) = some .directory :=
      (createFrom_grown t₁ _ _).kept _ _ hnode
    rw [createFrom] at h ⊢
    rw [walk]
    split at h
    · exact nomatch h
    rename_i hlength
    simp only [if_neg hlength]
    split at h
    · rw [hfirst _ (node?_set_self t _ _)]
      exact ih h
    · rename_i hnode
      rw [hfirst t hnode]
      exact ih h
    · exact nomatch h

/-- No file is in the way from the directory `here` on. -/
def IsFree (t : FileTree) (here rest : Path) : Prop :=
  ∀ q data, q ≠ [] → q <+: rest → t.node? (here ++ q) ≠ some (.file data)

/-- A path is free if no file is at its first part and the rest of it is free from there on. -/
theorem isFree_cons_iff : t.IsFree here (name :: rest) ↔
    (∀ data, t.node? (here ++ [name]) ≠ some (.file data)) ∧ t.IsFree (here ++ [name]) rest := by
  constructor
  · intro h
    refine ⟨fun data => h [name] data (by simp) (by simp), fun q data hq hfront => ?_⟩
    have hlonger := h (name :: q) data (by simp) (List.cons_prefix_cons.2 ⟨rfl, hfront⟩)
    simpa using hlonger
  · rintro ⟨hfirst, hrest⟩ q data hq hfront
    cases q with
    | nil => exact absurd rfl hq
    | cons first q =>
      obtain ⟨rfl, hshorter⟩ := List.cons_prefix_cons.1 hfront
      by_cases hnil : q = []
      · subst hnil
        exact hfirst data
      · simpa using hrest q data hnil hshorter

/-- Directories can be created unless a name is too long or a file is in the way. -/
theorem createFrom_eq_ok_iff : (t.createFrom here rest).1 = .ok () ↔
    (∀ name ∈ rest, name.utf8ByteSize ≤ maxNameBytes) ∧ t.IsFree here rest := by
  induction rest generalizing t here with
  | nil =>
    refine iff_of_true rfl ⟨fun _ h => absurd h List.not_mem_nil, fun q data hq hfront => ?_⟩
    exact absurd (List.prefix_nil.1 hfront) hq
  | cons name rest ih =>
    rw [createFrom, isFree_cons_iff, List.forall_mem_cons]
    split
    · rename_i hlength
      exact iff_of_false nofun fun h => absurd hlength (Nat.not_lt.2 h.1.1)
    rename_i hlength
    have hname : name.utf8ByteSize ≤ maxNameBytes := Nat.not_lt.1 hlength
    split
    · -- The new directory is no file, and nothing below it has changed.
      rename_i hnode
      have hsame : (t.set (here ++ [name]) .directory).IsFree (here ++ [name]) rest ↔
          t.IsFree (here ++ [name]) rest := by
        refine forall₄_congr fun q data hq _ => ?_
        have hne : here ++ [name] ++ q ≠ here ++ [name] := fun h =>
          hq (List.append_right_eq_self.1 h)
        rw [node?_set, if_neg hne]
      rw [ih, hsame, hnode]
      simp [hname]
    · rename_i hnode
      rw [ih, hnode]
      simp [hname]
    · rename_i data hnode
      exact iff_of_false nofun fun h => h.2.1 data hnode

/-! ### Files in a directory -/

section InDirectory

variable {data : ByteArray} {source : String} {asDirectory : Bool}

/-- A new file that is written keeps what paths lead to. -/
theorem look_set_of_new (h : t.look p = .ok .directory) (hnew : t.node? q = none) :
    (t.set q n).look p = .ok .directory := by
  have hfree : t.node? q ≠ some .directory := by simp [hnew]
  exact (keepsDirectories_set hfree).look h

/-- A new file can be written exactly if its name is one. -/
theorem write_concat (h : t.look p = .ok .directory) (hname : IsName name)
    (hnew : t.node? (p ++ [name]) = none) :
    t.write (p ++ [name]) data = (.ok (), t.set (p ++ [name]) (.file data)) := by
  have hlook : t.look (p ++ [name]) = .error .notFound := by rw [look_concat h hname, hnew]
  rw [write, hlook]
  simp only [List.dropLast_concat, h, if_true]

/-- In a directory, a file can be written whatever its bytes are, or not. -/
theorem write_concat_cases (name : String) (h : t.look p = .ok .directory) :
    (∃ e, ∀ data, t.write (p ++ [name]) data = (.error e, t)) ∨
    IsName name ∧ t.node? (p ++ [name]) ≠ some .directory ∧
      ∀ data, t.write (p ++ [name]) data = (.ok (), t.set (p ++ [name]) (.file data)) := by
  by_cases hname : IsName name
  · have hlook := look_concat h hname
    cases hnode : t.node? (p ++ [name]) with
    | none =>
      exact Or.inr ⟨hname, nofun, fun data => write_concat h hname hnode⟩
    | some n =>
      rw [hnode] at hlook
      cases n with
      | directory =>
        refine Or.inl ⟨.isDirectory, fun data => ?_⟩
        rw [write, hlook]
      | file bytes =>
        refine Or.inr ⟨hname, nofun, fun data => ?_⟩
        rw [write, hlook]
  · obtain ⟨e, he, hlook⟩ := exists_look_concat_eq_error h hname
    refine Or.inl ⟨e, fun data => ?_⟩
    rw [write, hlook]
    cases e with
    | notFound => exact absurd rfl he
    | notDirectory | isDirectory | nameTooLong | invalidName => rfl

/-- A file with a name that nothing can have is not written, and there is nothing to remove. -/
theorem exists_write_concat_eq_error (data : ByteArray) (h : t.look p = .ok .directory)
    (hname : ¬IsName name) :
    ∃ e, t.write (p ++ [name]) data = (.error e, t) ∧ t.remove (p ++ [name]) = t := by
  obtain ⟨e, he, hlook⟩ := exists_look_concat_eq_error h hname
  refine ⟨e, ?_, by rw [remove, hlook]⟩
  rw [write, hlook]
  cases e with
  | notFound => exact absurd rfl he
  | notDirectory | isDirectory | nameTooLong | invalidName => rfl

/-- A file that is listed in a directory can be removed. -/
theorem remove_concat (h : t.look p = .ok .directory) (hname : IsName name)
    (hfile : t.node? (p ++ [name]) = some (.file data)) :
    t.remove (p ++ [name]) = t.erase (p ++ [name]) := by
  rw [remove, look_concat h hname, hfile]

/-- A file takes the place of a file or of nothing in its directory, and never of a directory. -/
theorem rename_concat (h : t.look p = .ok .directory) (hsource : IsName source)
    (hfile : t.node? (p ++ [source]) = some (.file data)) (hname : IsName name) :
    t.rename (p ++ [source]) (p ++ [name]) asDirectory =
      if t.node? (p ++ [name]) = some .directory then (.error .isDirectory, t)
      else if asDirectory then (.error .notDirectory, t)
      else (.ok (), (t.erase (p ++ [source])).set (p ++ [name]) (.file data)) := by
  have hread : t.read (p ++ [source]) false = .ok data := by
    rw [read, look_concat h hsource, hfile]
    rfl
  rw [rename, hread, look_concat h hname]
  cases hnode : t.node? (p ++ [name]) with
  | none => simp
  | some m =>
    cases m with
    | directory => simp
    | file bytes => simp

end InDirectory

end Workplane.FileTree
