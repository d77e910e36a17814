import Workplane.Proofs.Storage.FileTrees
import Workplane.Storage.FileBlobs

/-!
# How blobs are put in files

A key spells the names of a path (`components`): its parts without the void ones, none of which
leads out of the root.  `PutAt` tells each ending of a put at a path.  Unless a put succeeds, all
that it leaves behind are directories on the way (`PutAt.grown`), and which puts succeed is told by
`Accepts`.  The trees that a put makes on its way are its `stages`; every path in them lies below
the root (`confined_stages`).
-/

namespace Workplane.FileBlobs

open FileTree (Grown IsName)

/-! ### Keys -/

/-- The names that a key spells. -/
def components (key : String) : Path :=
  ((Text.parts '/' key.toList).map String.ofList).filter fun part => !isVoid part

/-- The name of something in a directory. -/
structure IsProper (name : String) : Prop where
  ne_empty : name ≠ ""
  ne_here : name ≠ "."
  ne_above : name ≠ ".."
  slash : '/' ∉ name.toList

/-- The path of something below the root. -/
structure IsBelow (p : Path) : Prop where
  ne_nil : p ≠ []
  names : ∀ name ∈ p, IsProper name

/-- No part of a text contains the separator. -/
theorem notMem_of_mem_parts {separator : Char} {s part : List Char}
    (h : part ∈ Text.parts separator s) : separator ∉ part := by
  induction s generalizing part with
  | nil =>
    obtain rfl := List.mem_singleton.1 h
    exact List.not_mem_nil
  | cons c s ih =>
    rw [Text.parts] at h
    split at h
    · rcases List.mem_cons.1 h with rfl | h
      · exact List.not_mem_nil
      · exact ih h
    · rename_i hc
      split at h
      · rename_i first others hparts
        rcases List.mem_cons.1 h with rfl | h
        · have hfirst : separator ∉ first := ih (by rw [hparts]; exact .head others)
          exact List.not_mem_cons_of_ne_of_not_mem (Ne.symm hc) hfirst
        · exact ih (by rw [hparts]; exact .tail first h)
      · rename_i hparts
        exact absurd hparts (Text.parts_ne_nil separator s)

/-- Slashes at the front spell no names. -/
theorem filter_parts_dropWhile (s : List Char) :
    ((Text.parts '/' (s.dropWhile (· == '/'))).map String.ofList).filter (fun p => !isVoid p) =
      ((Text.parts '/' s).map String.ofList).filter fun p => !isVoid p := by
  induction s with
  | nil => rfl
  | cons c s ih =>
    by_cases hc : c = '/'
    · subst hc
      rw [List.dropWhile_cons_of_pos (by decide), ih, Text.parts, if_pos rfl]
      rfl
    · rw [List.dropWhile_cons_of_neg (by simpa using hc)]

section Location

variable {key : String} {l : Location}

theorem path_of_ofKey? (h : Location.ofKey? key = some l) : l.path = components key := by
  unfold Location.ofKey? locate at h
  split at h
  · exact nomatch h
  · obtain rfl := Option.some.inj h
    exact filter_parts_dropWhile key.toList

/-- The path of a key lies below the root. -/
theorem isBelow_of_ofKey? (h : Location.ofKey? key = some l) : IsBelow l.path := by
  unfold Location.ofKey? locate at h
  split at h
  · exact nomatch h
  rename_i hvalid
  obtain rfl := Option.some.inj h
  simp only [Bool.or_eq_true, not_or, Bool.not_eq_true] at hvalid
  refine ⟨?_, fun name hname => ?_⟩
  · -- The first part is a name.
    obtain ⟨first, rest, hparts⟩ :=
      List.exists_cons_of_ne_nil (Text.parts_ne_nil '/' (key.toList.dropWhile (· == '/')))
    have hfirst : isVoid (String.ofList first) = false := by
      have hhead := hvalid.2
      rw [hparts] at hhead
      simpa using hhead
    rw [hparts, List.map_cons, List.filter_cons, hfirst]
    exact List.cons_ne_nil _ _
  · obtain ⟨hname, hvoid⟩ := List.mem_filter.1 hname
    have hvoid : isVoid name = false := by simpa using hvoid
    unfold isVoid at hvoid
    rw [Bool.or_eq_false_iff, beq_eq_false_iff_ne, beq_eq_false_iff_ne] at hvoid
    refine ⟨hvoid.1, hvoid.2, ?_, ?_⟩
    · rintro rfl
      have hnot := hvalid.1
      rw [List.contains_iff_mem.2 hname] at hnot
      exact nomatch hnot
    · obtain ⟨part, hpart, rfl⟩ := List.mem_map.1 hname
      rw [String.toList_ofList]
      exact notMem_of_mem_parts hpart

end Location

/-- What leads to a place below the root is below the root. -/
theorem IsBelow.of_front {p q : Path} (h : IsBelow p) (hq : q ≠ []) (hfront : q <+: p) :
    IsBelow q :=
  ⟨hq, fun name hname => h.names name (hfront.subset hname)⟩

/-! ### Temporary files -/

/-- The name of the temporary file beside a file. -/
def temporaryName (name token : String) : String :=
  s!".{name}.{token}.tmp"

section Temporary

variable {dir : Path} {name token : String}

/-- The temporary file stands beside the file that it will become. -/
theorem temporary_concat (dir : Path) (name token : String) :
    temporary (dir ++ [name]) token = dir ++ [temporaryName name token] := by
  simp [temporary, temporaryName]

theorem toList_temporaryName (name token : String) : (temporaryName name token).toList =
    '.' :: (name.toList ++ '.' :: (token.toList ++ ['.', 't', 'm', 'p'])) := by
  simp [temporaryName, String.toList_append, toString]

theorem ne_temporaryName (name token : String) : name ≠ temporaryName name token := by
  intro h
  have hlength : (temporaryName name token).toList.length = name.toList.length := by rw [← h]
  rw [toList_temporaryName, List.length_cons, List.length_append] at hlength
  omega

/-- A file is never written in the place of itself. -/
theorem temporary_ne {p : Path} (hp : p ≠ []) (token : String) : temporary p token ≠ p := by
  obtain ⟨dir, name, rfl⟩ : ∃ dir name, p = dir ++ [name] :=
    ⟨_, _, (List.dropLast_concat_getLast hp).symm⟩
  rw [temporary_concat]
  intro h
  exact ne_temporaryName name token (List.singleton_inj.1 (List.append_cancel_left h)).symm

theorem isProper_temporaryName (hname : IsProper name) (htoken : '/' ∉ token.toList) :
    IsProper (temporaryName name token) := by
  have hlength : 5 < (temporaryName name token).toList.length := by
    simp [toList_temporaryName]
    omega
  have hne (other : String) (hother : other.toList.length ≤ 5) :
      temporaryName name token ≠ other := by
    rintro rfl
    omega
  refine ⟨hne "" (by decide), hne "." (by decide), hne ".." (by decide), ?_⟩
  rw [toList_temporaryName]
  simp [hname.slash, htoken]

/-- If the temporary file can have its name, so can the file. -/
theorem isName_of_temporaryName (h : IsName (temporaryName name token)) : IsName name := by
  refine ⟨fun hnul => h.1 ?_, Nat.le_trans ?_ h.2⟩
  · rw [toList_temporaryName]
    simp [hnul]
  · simp [temporaryName, String.utf8ByteSize_append, toString]
    omega

end Temporary

/-! ### How puts end -/

section Put

variable {t t' : FileTree} {l : Location} {key token : String} {data : ByteArray}

/-- Whether all of the directories are created or not, nothing else is. -/
theorem createDirectories_grown {p : Path} {r : Except FileError Unit}
    (h : t.createDirectories p = (r, t')) : Grown p t t' := by
  unfold FileTree.createDirectories at h
  split at h
  · obtain rfl : (t.createFrom [] p).2 = t' := congrArg Prod.snd h
    exact FileTree.createFrom_grown t [] p
  · obtain ⟨-, rfl⟩ := Prod.mk.inj h
    exact FileTree.grown_refl p t

/-- After a success, the path leads to a directory. -/
theorem look_createDirectories {p : Path} (h : t.createDirectories p = (.ok (), t')) :
    t'.look p = .ok .directory := by
  unfold FileTree.createDirectories at h
  split at h
  · rename_i hp
    have hwalk := FileTree.walk_createFrom (congrArg Prod.fst h)
    rw [h] at hwalk
    exact FileTree.look_eq_ok_iff.2 ⟨hp, hwalk⟩
  · exact nomatch (Prod.mk.inj h).1

/-- How a put at a place ends, and what it leaves: nothing but directories, unless it succeeds. -/
inductive PutAt (t : FileTree) (l : Location) (token : String) (data : ByteArray) :
    Except Error Unit → FileTree → Prop
  | uncreated {t₁ : FileTree} {e : FileError}
    (created : t.createDirectories l.path.dropLast = (.error e, t₁)) :
    PutAt t l token data (.error (.failed .create e)) t₁
  | unnamed {t₁ : FileTree} (e : FileError)
    (created : t.createDirectories l.path.dropLast = (.ok (), t₁))
    (unnamed : ¬IsName (temporaryName (l.path.getLast?.getD "") token)) :
    PutAt t l token data (.error (.failed .write e)) t₁
  | occupied {t₁ : FileTree} (created : t.createDirectories l.path.dropLast = (.ok (), t₁))
    (occupied : t₁.node? l.path = some .directory) :
    PutAt t l token data (.error (.failed .rename .isDirectory)) t₁
  | directory {t₁ : FileTree} (created : t.createDirectories l.path.dropLast = (.ok (), t₁))
    (directory : l.asDirectory = true) :
    PutAt t l token data (.error (.failed .rename .notDirectory)) t₁
  | stored {t₁ : FileTree} (created : t.createDirectories l.path.dropLast = (.ok (), t₁))
    (named : IsName (temporaryName (l.path.getLast?.getD "") token))
    (free : t₁.node? l.path ≠ some .directory) (plain : l.asDirectory = false) :
    PutAt t l token data (.ok ()) (t₁.set l.path (.file data))

/-- How putting a blob can end, step by step. -/
theorem putAt_cases (data : ByteArray) (hl : l.path ≠ [])
    (hnew : t.node? (temporary l.path token) = none) :
    PutAt t l token data (putAt t l token data).1 (putAt t l token data).2 := by
  obtain ⟨path, asDirectory⟩ := l
  obtain ⟨dir, name, rfl⟩ : ∃ dir name, path = dir ++ [name] :=
    ⟨_, _, (List.dropLast_concat_getLast hl).symm⟩
  have hlast :
      temporaryName ((dir ++ [name]).getLast?.getD "") token = temporaryName name token := by
    rw [List.getLast?_concat, Option.getD_some]
  rw [temporary_concat] at hnew
  unfold putAt
  rw [List.dropLast_concat, temporary_concat]
  split
  · rename_i t₁ created
    have hlook : t₁.look dir = .ok .directory := look_createDirectories created
    -- The directories that were created leave the temporary name free.
    have hfree : t₁.node? (dir ++ [temporaryName name token]) = none := by
      rw [(createDirectories_grown created).node?_concat, hnew]
    have created : t.createDirectories (dir ++ [name]).dropLast = (.ok (), t₁) := by
      rwa [List.dropLast_concat]
    unfold writeAndPlace
    by_cases hname : IsName (temporaryName name token)
    · have hwritten : (t₁.set (dir ++ [temporaryName name token]) (.file data)).look dir =
          .ok .directory := FileTree.look_set_of_new hlook hfree
      have hne : dir ++ [name] ≠ dir ++ [temporaryName name token] := by
        have := temporary_ne (List.concat_ne_nil name dir) token
        rwa [temporary_concat, ne_comm] at this
      rw [FileTree.write_concat hlook hname hfree]
      simp only [place]
      rw [FileTree.rename_concat hwritten hname (FileTree.node?_set_self _ _ _)
        (isName_of_temporaryName hname), FileTree.node?_set, if_neg hne]
      simp only [FileTree.erase_set hfree]
      -- The file is written; from here on it is moved to its place or removed again.
      by_cases hoccupied : t₁.node? (dir ++ [name]) = some .directory
      · rw [if_pos hoccupied]
        simp only
        rw [FileTree.remove_concat hwritten hname (FileTree.node?_set_self _ _ _),
          FileTree.erase_set hfree]
        exact .occupied created hoccupied
      · rw [if_neg hoccupied]
        cases asDirectory with
        | true =>
          simp only [if_true]
          rw [FileTree.remove_concat hwritten hname (FileTree.node?_set_self _ _ _),
            FileTree.erase_set hfree]
          exact .directory created rfl
        | false =>
          exact .stored created (hlast ▸ hname) hoccupied rfl
    · obtain ⟨e, hwrite, hremove⟩ :=
        FileTree.exists_write_concat_eq_error data hlook hname
      rw [hwrite]
      simp only [hremove]
      exact .unnamed e created (hlast ▸ hname)
  · rename_i t₁ e created
    exact .uncreated (by rwa [List.dropLast_concat])

/-- A put that fails leaves nothing behind but directories. -/
theorem PutAt.grown {e : Error} (h : PutAt t l token data (.error e) t') :
    Grown l.path.dropLast t t' := by
  cases h with
  | uncreated created | unnamed _ created | occupied created | directory created =>
    exact createDirectories_grown created

/-- A put that succeeds creates the directories and sets the file. -/
theorem PutAt.exists_eq_set (h : PutAt t l token data (.ok ()) t') :
    ∃ t₁, t.createDirectories l.path.dropLast = (.ok (), t₁) ∧
      t₁.node? l.path ≠ some .directory ∧ IsName (temporaryName (l.path.getLast?.getD "") token) ∧
      l.asDirectory = false ∧ t' = t₁.set l.path (.file data) := by
  cases h with
  | stored created named free plain => exact ⟨_, created, free, named, plain, rfl⟩

theorem createDirectories_eq_ok_iff {p : Path} :
    (t.createDirectories p).1 = .ok () ↔ (∀ name ∈ p, IsName name) ∧ t.IsFree [] p := by
  unfold FileTree.createDirectories
  split
  · rename_i hp
    rw [FileTree.createFrom_eq_ok_iff]
    have hpath : ∀ name ∈ p, '\x00' ∉ name.toList := by
      simpa [FileTree.isPath] using hp
    exact and_congr_left' (forall₂_congr fun name hname => (and_iff_right (hpath name hname)).symm)
  · rename_i hp
    refine iff_of_false (by simp) fun h => hp ?_
    simpa [FileTree.isPath] using fun name hname => (h.1 name hname).1

/-- Where a blob can be put: no directory on the way is missing for good, and the place can take
a file. -/
structure Accepts (t : FileTree) (l : Location) (token : String) : Prop where
  names : ∀ name ∈ l.path.dropLast, IsName name
  free : t.IsFree [] l.path.dropLast
  named : IsName (temporaryName (l.path.getLast?.getD "") token)
  notDirectory : t.node? l.path ≠ some .directory
  plain : l.asDirectory = false

/-- The exact condition for a put to succeed. -/
theorem putAt_eq_ok_iff (hl : l.path ≠ []) (hnew : t.node? (temporary l.path token) = none) :
    (putAt t l token data).1 = .ok () ↔ Accepts t l token := by
  have ends := putAt_cases data hl hnew
  constructor
  · intro h
    rw [h] at ends
    obtain ⟨t₁, created, free, named, plain, -⟩ := ends.exists_eq_set
    obtain ⟨names, hfree⟩ := createDirectories_eq_ok_iff.1 (congrArg Prod.fst created)
    have kept := (createDirectories_grown created).kept l.path .directory
    exact ⟨names, hfree, named, fun hnode => free (kept hnode), plain⟩
  · intro accepts
    have hcreated := createDirectories_eq_ok_iff.2 ⟨accepts.names, accepts.free⟩
    generalize (putAt t l token data).1 = r, (putAt t l token data).2 = t' at ends
    cases ends with
    | uncreated created =>
      rw [created] at hcreated
      exact nomatch hcreated
    | unnamed e created unnamed => exact absurd accepts.named unnamed
    | occupied created occupied =>
      -- The place lies beyond the directories that were created, so it was occupied before.
      rw [← List.dropLast_concat_getLast hl, (createDirectories_grown created).node?_concat,
        List.dropLast_concat_getLast hl] at occupied
      exact absurd occupied accepts.notDirectory
    | directory created directory => exact nomatch accepts.plain.symm.trans directory
    | stored => rfl

end Put

/-! ### What lies below the root -/

/-- Everything that is listed lies below the root. -/
def Confined (t : FileTree) : Prop :=
  ∀ m ∈ t.nodes, IsBelow m.1

section Confined

variable {t t' : FileTree} {p q : Path} {n : FileNode}

theorem Confined.of_node?_eq_some (h : Confined t) (hnode : t.node? p = some n) : IsBelow p := by
  refine Classical.not_not.1 fun hp => ?_
  have hnone : t.node? p = none :=
    FileTree.node?_eq_none_iff.2 fun m hm hpath => hp (hpath ▸ h m hm)
  exact nomatch hnode.symm.trans hnone

theorem confined_empty : Confined .empty :=
  fun _ hm => absurd hm List.not_mem_nil

theorem Confined.set (h : Confined t) (hp : IsBelow p) : Confined (t.set p n) := by
  intro m hm
  rcases List.mem_cons.1 hm with rfl | hm
  · exact hp
  · exact h m (List.mem_filter.1 hm).1

theorem Confined.erase (h : Confined t) : Confined (t.erase p) :=
  fun m hm => h m (List.mem_filter.1 hm).1

/-- Directories on the way to a place below the root are below it. -/
theorem Confined.grown (h : Confined t) (hp : IsBelow p) (hfront : q <+: p)
    (grown : Grown q t t') : Confined t' := by
  intro m hm
  cases hnode : t'.node? m.1 with
  | none => exact absurd rfl (FileTree.node?_eq_none_iff.1 hnode m hm)
  | some n =>
    rcases grown.added m.1 n hnode with hold | ⟨-, hne, hway⟩
    · exact h.of_node?_eq_some hold
    · exact hp.of_front hne (hway.trans hfront)

theorem Confined.write (h : Confined t) (hp : IsBelow p) (data : ByteArray) :
    Confined (t.write p data).2 := by
  unfold FileTree.write
  split
  · exact h.set hp
  · exact h
  · split
    · exact h.set hp
    · exact h
  · exact h

theorem Confined.remove (h : Confined t) : Confined (t.remove p) := by
  unfold FileTree.remove
  split
  · exact h.erase
  · exact h

theorem Confined.rename (h : Confined t) (p : Path) (hq : IsBelow q) (asDirectory : Bool) :
    Confined (t.rename p q asDirectory).2 := by
  unfold FileTree.rename
  split
  · exact h
  split
  · exact h
  · split
    · exact h
    · exact h.erase.set hq
  · split
    · exact h
    · exact h.erase.set hq
  · exact h

end Confined

/-! ### The steps of puts -/

/-- The trees that a put at a place makes one after another. -/
def stagesAt (t : FileTree) (l : Location) (token : String) (data : ByteArray) : List FileTree :=
  match t.createDirectories l.path.dropLast with
  | (.error _, t₁) => [t₁]
  | (.ok (), t₁) =>
    let source := temporary l.path token
    match t₁.write source data with
    | (.error _, t₂) => [t₁, t₂, t₂.remove source]
    | (.ok (), t₂) =>
      match t₂.rename source l.path l.asDirectory with
      | (.error _, t₃) => [t₁, t₂, t₃, t₃.remove source]
      | (.ok (), t₃) => [t₁, t₂, t₃]

/-- The trees that a put makes one after another. -/
def stages (t : FileTree) (key token : String) (data : ByteArray) : List FileTree :=
  match Location.ofKey? key with
  | some l => stagesAt t l token data
  | none => [t]

section Stages

variable {t : FileTree} {l : Location} {key token : String} {data : ByteArray}

/-- The last stage of a put is what it leaves. -/
theorem getLast?_stagesAt (t : FileTree) (l : Location) (token : String) (data : ByteArray) :
    (stagesAt t l token data).getLast? = some (putAt t l token data).2 := by
  unfold stagesAt putAt writeAndPlace place
  generalize t.createDirectories l.path.dropLast = created
  obtain ⟨_ | _, t₁⟩ := created
  · rfl
  simp only
  generalize t₁.write (temporary l.path token) data = written
  obtain ⟨_ | _, t₂⟩ := written
  · rfl
  simp only
  generalize t₂.rename (temporary l.path token) l.path l.asDirectory = renamed
  obtain ⟨_ | _, t₃⟩ := renamed
  · rfl
  · rfl

/-- A put ends with the last of its trees. -/
theorem getLast?_stages (t : FileTree) (key token : String) (data : ByteArray) :
    (stages t key token data).getLast? = some (put t key token data).2 := by
  unfold stages put
  cases Location.ofKey? key with
  | none => rfl
  | some l => exact getLast?_stagesAt t l token data

/-- Temporary files are below the root as well. -/
theorem isBelow_temporary (hl : IsBelow l.path) (htoken : '/' ∉ token.toList) :
    IsBelow (temporary l.path token) := by
  obtain ⟨path, asDirectory⟩ := l
  obtain ⟨dir, name, rfl⟩ : ∃ dir name, path = dir ++ [name] :=
    ⟨_, _, (List.dropLast_concat_getLast hl.ne_nil).symm⟩
  rw [temporary_concat]
  refine ⟨by simp, fun other hother => ?_⟩
  rcases List.mem_append.1 hother with hdir | hlast
  · exact hl.names other (by simp [hdir])
  · obtain rfl := List.mem_singleton.1 hlast
    exact isProper_temporaryName (hl.names name (by simp)) htoken

/-- At no stage of a put anything stands outside of the root. -/
theorem confined_stagesAt (h : Confined t) (hl : IsBelow l.path) (htoken : '/' ∉ token.toList) :
    ∀ s ∈ stagesAt t l token data, Confined s := by
  have hsource := isBelow_temporary hl htoken
  have h₁ : Confined (t.createDirectories l.path.dropLast).2 :=
    h.grown hl (List.dropLast_prefix _) (createDirectories_grown rfl)
  unfold stagesAt
  generalize t.createDirectories l.path.dropLast = created at h₁
  obtain ⟨_ | _, t₁⟩ := created
  · simpa using h₁
  have h₂ := h₁.write hsource data
  simp only
  generalize t₁.write (temporary l.path token) data = written at h₂
  obtain ⟨_ | _, t₂⟩ := written
  · simpa using ⟨h₁, h₂, h₂.remove⟩
  have h₃ := h₂.rename (temporary l.path token) hl l.asDirectory
  simp only
  generalize t₂.rename (temporary l.path token) l.path l.asDirectory = renamed at h₃
  obtain ⟨_ | _, t₃⟩ := renamed
  · simpa using ⟨h₁, h₂, h₃, h₃.remove⟩
  · simpa using ⟨h₁, h₂, h₃⟩

/-- No tree that a put makes has anything outside of the root. -/
theorem confined_stages (h : Confined t) (htoken : '/' ∉ token.toList) :
    ∀ s ∈ stages t key token data, Confined s := by
  unfold stages
  cases hkey : Location.ofKey? key with
  | none => simpa using h
  | some l => exact confined_stagesAt h (isBelow_of_ofKey? hkey) htoken

end Stages

end Workplane.FileBlobs
