import Workplane.Proofs.Storage.FileBlobs

/-!
# Blobs in files as a map

Whatever calls are made to a fresh store (`Run`), its files are the map from the paths that keys
spell to the bytes that were put there last with success (`lastPut`), and nothing else: the main
statement is `behavesAsMap_of_run`.  It rests on an invariant of runs (`Mapped`), which also says
that every file can be reached, since no file is ever on the way to another one.
-/

namespace Workplane.FileBlobs

open FileTree (Grown IsName)

/-! ### Calls -/

/-- A call with its answer. -/
inductive Exchange where
  | put (key token : String) (data : ByteArray) (answer : Except Error Unit)
  | get (key : String) (answer : Except Error (Option ByteArray))

/-- The bytes that a call has put at a path. -/
def Exchange.puts? (p : Path) : Exchange → Option ByteArray
  | put key _ data (.ok ()) => if components key = p then some data else none
  | put _ _ _ (.error _) => none
  | get _ _ => none

/-- The bytes that were put last at a path. -/
def lastPut (xs : List Exchange) (p : Path) : Option ByteArray :=
  xs.reverse.findSome? (Exchange.puts? p)

/-- Nothing has the name of the temporary file that a put makes. -/
structure IsNew (t : FileTree) (key token : String) : Prop where
  slash : '/' ∉ token.toList
  free : ∀ l, Location.ofKey? key = some l → t.node? (temporary l.path token) = none

theorem isNew_iff {t : FileTree} {key token : String} : IsNew t key token ↔
    '/' ∉ token.toList ∧ ∀ l ∈ Location.ofKey? key, t.node? (temporary l.path token) = none :=
  ⟨fun h => ⟨h.slash, h.free⟩, fun h => ⟨h.1, h.2⟩⟩

instance (t : FileTree) (key token : String) : Decidable (IsNew t key token) :=
  decidable_of_iff _ isNew_iff.symm

/-- The calls that were made to a store that was fresh, one after another, and its files then. -/
inductive Run : List Exchange → FileTree → Prop
  | fresh : Run [] .empty
  | put {xs : List Exchange} {t : FileTree} (run : Run xs t) (key token : String)
    (data : ByteArray) (new : IsNew t key token) :
    Run (xs ++ [.put key token data (put t key token data).1]) (put t key token data).2
  | get {xs : List Exchange} {t : FileTree} (run : Run xs t) (key : String) :
    Run (xs ++ [.get key (get t key)]) t

section LastPut

variable {xs : List Exchange} {x : Exchange} {p : Path} {key token : String} {data : ByteArray}

theorem lastPut_concat (xs : List Exchange) (x : Exchange) (p : Path) :
    lastPut (xs ++ [x]) p = (x.puts? p).or (lastPut xs p) := by
  rw [lastPut, List.reverse_concat, List.findSome?_cons, lastPut]
  cases x.puts? p <;> rfl

theorem lastPut_put_ok (xs : List Exchange) (key token : String) (data : ByteArray) (p : Path) :
    lastPut (xs ++ [.put key token data (.ok ())]) p =
      if p = components key then some data else lastPut xs p := by
  rw [lastPut_concat, Exchange.puts?]
  by_cases hp : components key = p
  · rw [if_pos hp, if_pos hp.symm, Option.some_or]
  · rw [if_neg hp, if_neg (Ne.symm hp), Option.none_or]

theorem exists_lastPut (h : .put key token data (.ok ()) ∈ xs) :
    ∃ data', lastPut xs (components key) = some data' := by
  have hsome : ((lastPut xs (components key))).isSome := by
    rw [lastPut, List.isSome_findSome?, List.any_reverse, List.any_eq_true]
    exact ⟨_, h, by simp [Exchange.puts?]⟩
  exact Option.isSome_iff_exists.1 hsome

end LastPut

/-! ### The invariant -/

/-- The files of a store are those of the last puts, and paths lead to them. -/
structure Mapped (xs : List Exchange) (t : FileTree) : Prop where
  isMap : t.IsMap
  confined : Confined t
  node? : ∀ p data, t.node? p = some (.file data) ↔ lastPut xs p = some data
  reached : ∀ p data, t.node? p = some (.file data) → t.look p = .ok (.file data)

theorem mapped_empty : Mapped [] .empty :=
  ⟨FileTree.isMap_empty, confined_empty, fun _ _ => iff_of_false nofun nofun, fun _ _ => nofun⟩

namespace Mapped

variable {xs : List Exchange} {x : Exchange} {t t' : FileTree} {l : Location} {dir p q : Path}
  {name key token : String} {data : ByteArray}

/-- A call that puts nothing changes nothing that matters. -/
theorem concat (h : Mapped xs t) (hx : ∀ p, x.puts? p = none) : Mapped (xs ++ [x]) t := by
  refine ⟨h.isMap, h.confined, fun p data => ?_, h.reached⟩
  rw [lastPut_concat, hx, Option.none_or]
  exact h.node? p data

/-- New directories change nothing that matters. -/
theorem grown (h : Mapped xs t) (hp : IsBelow p) (hfront : q <+: p) (grown : Grown q t t') :
    Mapped xs t' := by
  -- What is new is a directory, so it is not among the files.
  have files (path : Path) (data : ByteArray) :
      t'.node? path = some (.file data) ↔ t.node? path = some (.file data) := by
    refine ⟨fun hnode => ?_, grown.kept path _⟩
    rcases grown.added path _ hnode with hold | ⟨hdir, -, -⟩
    · exact hold
    · exact nomatch hdir
  refine ⟨grown.isMap h.isMap, h.confined.grown hp hfront grown, fun path data => ?_,
    fun path data hnode => ?_⟩
  · rw [files, h.node?]
  · exact FileTree.look_kept (h.reached path data ((files path data).1 hnode))
      (fun q => grown.kept q .directory) (grown.kept path)

/-- A file that takes a place where no directory is becomes what was put last there. -/
theorem set (h : Mapped xs t) (hdir : t.look dir = .ok .directory) (hname : IsName name)
    (hbelow : IsBelow (dir ++ [name])) (hfree : t.node? (dir ++ [name]) ≠ some .directory)
    (hkey : components key = dir ++ [name]) :
    Mapped (xs ++ [.put key token data (.ok ())]) (t.set (dir ++ [name]) (.file data)) := by
  have directories : t.KeepsDirectories (t.set (dir ++ [name]) (.file data)) :=
    FileTree.keepsDirectories_set hfree
  have others (q : Path) (hq : q ≠ dir ++ [name]) :
      (t.set (dir ++ [name]) (.file data)).node? q = t.node? q := by
    rw [FileTree.node?_set, if_neg hq]
  refine ⟨h.isMap.set _ _, h.confined.set hbelow, fun path bytes => ?_,
    fun path bytes hnode => ?_⟩
  · rw [lastPut_put_ok, hkey, FileTree.node?_set]
    by_cases hpath : path = dir ++ [name]
    · rw [if_pos hpath, if_pos hpath]
      simp
    · rw [if_neg hpath, if_neg hpath]
      exact h.node? path bytes
  · by_cases hpath : path = dir ++ [name]
    · subst hpath
      -- The way to the directory is kept, so the new file is found in it.
      rw [FileTree.look_concat (directories.look hdir) hname, hnode]
    · rw [others path hpath] at hnode
      exact FileTree.look_kept (h.reached path bytes hnode) directories
        fun m hm => (others path hpath).trans hm

theorem putAt (h : Mapped xs t) (data : ByteArray) (hkey : Location.ofKey? key = some l)
    (hnew : t.node? (temporary l.path token) = none) :
    Mapped (xs ++ [.put key token data (FileBlobs.putAt t l token data).1])
      (FileBlobs.putAt t l token data).2 := by
  have hbelow : IsBelow l.path := isBelow_of_ofKey? hkey
  have ends := putAt_cases data hbelow.ne_nil hnew
  generalize (FileBlobs.putAt t l token data).1 = r, (FileBlobs.putAt t l token data).2 = t' at ends
  have hway : l.path.dropLast <+: l.path := List.dropLast_prefix _
  cases r with
  | error e => exact (h.grown hbelow hway ends.grown).concat fun _ => rfl
  | ok u =>
    obtain ⟨t₁, created, free, named, -, rfl⟩ := ends.exists_eq_set
    have grown : Grown l.path.dropLast t t₁ := createDirectories_grown created
    have hlast : l.path.getLast?.getD "" = l.path.getLast hbelow.ne_nil := by
      rw [List.getLast?_eq_some_getLast hbelow.ne_nil, Option.getD_some]
    have hpath : l.path = l.path.dropLast ++ [l.path.getLast hbelow.ne_nil] :=
      (List.dropLast_concat_getLast hbelow.ne_nil).symm
    rw [hlast] at named
    have hset : Mapped (xs ++ [.put key token data (.ok ())]) _ :=
      (h.grown hbelow hway grown).set (look_createDirectories created)
        (isName_of_temporaryName named) (hpath ▸ hbelow) (hpath ▸ free)
        ((path_of_ofKey? hkey).symm.trans hpath)
    rwa [← hpath] at hset

theorem put (h : Mapped xs t) (data : ByteArray) (new : IsNew t key token) :
    Mapped (xs ++ [.put key token data (put t key token data).1]) (put t key token data).2 := by
  unfold FileBlobs.put
  cases hkey : Location.ofKey? key with
  | none => exact h.concat fun _ => rfl
  | some l => exact h.putAt data hkey (new.free l hkey)

end Mapped

/-- Whatever calls were made, the files are those of the last puts. -/
theorem mapped_of_run {xs : List Exchange} {t : FileTree} (run : Run xs t) : Mapped xs t := by
  induction run with
  | fresh => exact mapped_empty
  | put _ key token data new ih => exact ih.put data new
  | get _ key ih => exact ih.concat fun _ => rfl

/-! ### The map -/

section Answers

variable {xs : List Exchange} {t : FileTree} {l : Location} {key token : String}
  {data : ByteArray}

/-- Unless a put succeeds, no file changes. -/
theorem files_put {e : Error} (new : IsNew t key token) (h : (put t key token data).1 = .error e) :
    (put t key token data).2.files = t.files := by
  unfold put at h ⊢
  cases hkey : Location.ofKey? key with
  | none => rfl
  | some l =>
    rw [hkey] at h
    have ends := putAt_cases data (isBelow_of_ofKey? hkey).ne_nil (new.free l hkey)
    simp only at h
    rw [h] at ends
    exact ends.grown.files

/-- Which puts succeed. -/
theorem put_eq_ok_iff (new : IsNew t key token) : (put t key token data).1 = .ok () ↔
    ∃ l, Location.ofKey? key = some l ∧ Accepts t l token := by
  unfold put
  cases hkey : Location.ofKey? key with
  | none => exact iff_of_false nofun fun ⟨_, h, _⟩ => nomatch h
  | some l =>
    simp only [putAt_eq_ok_iff (isBelow_of_ofKey? hkey).ne_nil (new.free l hkey)]
    simp

/-- No key that is written like that of a directory was ever put. -/
theorem plain_of_run (run : Run xs t) (h : .put key token data (.ok ()) ∈ xs) :
    ∃ l, Location.ofKey? key = some l ∧ l.asDirectory = false := by
  induction run with
  | fresh => exact absurd h List.not_mem_nil
  | @put xs t run key' token' data' new ih =>
    rcases List.mem_append.1 h with h | h
    · exact ih h
    · -- The put succeeded in the tree that it met, which accepts only plain places.
      obtain ⟨rfl, rfl, rfl, answer⟩ := Exchange.put.inj (List.mem_singleton.1 h)
      obtain ⟨l, hkey, accepts⟩ := (put_eq_ok_iff new).1 answer.symm
      exact ⟨l, hkey, accepts.plain⟩
  | get run key' ih =>
    rcases List.mem_append.1 h with h | h
    · exact ih h
    · exact nomatch List.mem_singleton.1 h

/-- A put leaves no temporary file. -/
theorem node?_temporary (new : IsNew t key token) (hkey : Location.ofKey? key = some l) :
    (put t key token data).2.node? (temporary l.path token) = none := by
  have hl : l.path ≠ [] := (isBelow_of_ofKey? hkey).ne_nil
  have hnew := new.free l hkey
  have ends := putAt_cases data hl hnew
  unfold put
  simp only [hkey]
  generalize (putAt t l token data).1 = r, (putAt t l token data).2 = t' at ends
  cases r with
  | error e => exact (ends.grown.node?_concat _).trans hnew
  | ok u =>
    obtain ⟨t₁, created, -, -, -, rfl⟩ := ends.exists_eq_set
    rw [FileTree.node?_set, if_neg (temporary_ne hl token)]
    exact ((createDirectories_grown created).node?_concat _).trans hnew

theorem Mapped.read_eq_ok_iff (h : Mapped xs t) {p : Path} {asDirectory : Bool} :
    t.read p asDirectory = .ok data ↔ asDirectory = false ∧ lastPut xs p = some data := by
  unfold FileTree.read
  rw [← h.node?]
  constructor
  · intro hread
    split at hread
    · rename_i bytes hlook
      split at hread
      · exact nomatch hread
      · rename_i hplain
        obtain rfl := Except.ok.inj hread
        exact ⟨by simpa using hplain, FileTree.node?_of_look hlook⟩
    · exact nomatch hread
    · exact nomatch hread
  · rintro ⟨rfl, hnode⟩
    rw [h.reached p data hnode]
    rfl

/-- A get returns the bytes that were put last. -/
theorem Mapped.get_eq_ok_some_iff (h : Mapped xs t) : get t key = .ok (some data) ↔
    ∃ l, Location.ofKey? key = some l ∧ l.asDirectory = false ∧
      lastPut xs (components key) = some data := by
  unfold get
  cases hkey : Location.ofKey? key with
  | none => exact iff_of_false nofun fun ⟨_, h, _⟩ => nomatch h
  | some l =>
    have hread : t.read l.path l.asDirectory = .ok data ↔
        l.asDirectory = false ∧ lastPut xs (components key) = some data := by
      rw [h.read_eq_ok_iff, path_of_ofKey? hkey]
    simp only [Option.some.injEq, exists_eq_left', ← hread]
    cases t.read l.path l.asDirectory with
    | ok bytes => simp
    | error e => cases e <;> simp

end Answers

/-- The store is a map from paths to bytes after the calls `xs`. -/
structure BehavesAsMap (xs : List Exchange) (t : FileTree) : Prop where
  confined : Confined t
  nodup : (t.files.map Prod.fst).Nodup
  files : ∀ p data, (p, data) ∈ t.files ↔ lastPut xs p = some data
  /-- Nothing is ever written outside of the root, nor in the course of a put. -/
  stages : ∀ key token data, IsNew t key token →
    (stages t key token data).getLast? = some (put t key token data).2 ∧
      ∀ s ∈ FileBlobs.stages t key token data, Confined s
  temporary : ∀ key token data l, IsNew t key token → Location.ofKey? key = some l →
    (put t key token data).2.node? (temporary l.path token) = none
  put_ok : ∀ key token data, IsNew t key token →
    ((put t key token data).1 = .ok () ↔ ∃ l, Location.ofKey? key = some l ∧ Accepts t l token)
  put_error : ∀ key token data e, IsNew t key token → (put t key token data).1 = .error e →
    (put t key token data).2.files = t.files
  get : ∀ key data, get t key = .ok (some data) ↔
    ∃ l, Location.ofKey? key = some l ∧ l.asDirectory = false ∧
      lastPut xs (components key) = some data
  get_put : ∀ key token data, .put key token data (.ok ()) ∈ xs →
    ∃ data', lastPut xs (components key) = some data' ∧ FileBlobs.get t key = .ok (some data')

/-- Whatever calls are made to a fresh store, it is the map from paths to the bytes that were put
last. -/
theorem behavesAsMap_of_run {xs : List Exchange} {t : FileTree} (run : Run xs t) :
    BehavesAsMap xs t := by
  have mapped := mapped_of_run run
  refine ⟨mapped.confined, FileTree.nodup_files mapped.isMap, fun p data => ?_,
    fun key token data new => ⟨getLast?_stages t key token data, ?_⟩,
    fun _ _ _ _ new hkey => node?_temporary new hkey, fun _ _ _ new => put_eq_ok_iff new,
    fun _ _ _ _ new h => files_put new h, fun _ _ => mapped.get_eq_ok_some_iff,
    fun key token data hput => ?_⟩
  · exact (FileTree.mem_files_iff mapped.isMap).trans (mapped.node? p data)
  · exact confined_stages mapped.confined new.slash
  · obtain ⟨data', hlast⟩ := exists_lastPut hput
    obtain ⟨l, hkey, hplain⟩ := plain_of_run run hput
    exact ⟨data', hlast, mapped.get_eq_ok_some_iff.2 ⟨l, hkey, hplain, hlast⟩⟩

/-- Two keys of one path, a put below a file, a put in the place of a directory, a key that leads
out of the root, and a get. -/
theorem behavesAsMap_of_run_shadowed : ∃ t,
    BehavesAsMap
      [.put "a//./b" "1" ⟨#[1]⟩ (.ok ()), .put "/a/b" "2" ⟨#[2]⟩ (.ok ()),
        .put "a/b/c" "3" ⟨#[3]⟩ (.error (.failed .create .notDirectory)),
        .put "a" "4" ⟨#[4]⟩ (.error (.failed .rename .isDirectory)),
        .put "a/../b" "5" ⟨#[5]⟩ (.error (.invalidKey "a/../b")),
        .get "a/b" (.ok (some ⟨#[2]⟩))] t ∧
      t.files = [(["a", "b"], ⟨#[2]⟩)] := by
  have run := Run.fresh.put "a//./b" "1" ⟨#[1]⟩ (by decide +kernel)
  have run := run.put "/a/b" "2" ⟨#[2]⟩ (by decide +kernel)
  have run := run.put "a/b/c" "3" ⟨#[3]⟩ (by decide +kernel)
  have run := run.put "a" "4" ⟨#[4]⟩ (by decide +kernel)
  have run := run.put "a/../b" "5" ⟨#[5]⟩ (by decide +kernel)
  exact ⟨_, behavesAsMap_of_run (run.get "a/b"), rfl⟩

end Workplane.FileBlobs
