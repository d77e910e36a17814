import Mathlib.Logic.Function.Basic
import Workplane.Proofs.Storage.FileMap
import Workplane.Proofs.Storage.PutSteps

/-!
# Interleaved puts and gets

Any number of puts take their steps in any order on the files of one store, with gets in between
(`interleave`).  If the temporary files have names of their own (`HaveOwnNames`), the puts never
mix: whatever is read are the bytes of the put that was renamed last, and once no put is under way
the files are those of the last puts and nothing else (`neverMix_interleave`).  A put that is given
up in the middle is one that makes no more steps; its temporary file stays, and no other file
changes.

The invariant is that a file is the one that was renamed last at its path, or the temporary file of
one put that is under way (`Ledger`).  Only the put itself writes its temporary file, so what it
renames is its whole blob.
-/

namespace Workplane.FileBlobs

-- Byte arrays are compared by core's instance, whatever is in scope beside this module.
attribute [local instance (high)] ByteArray.instDecidableEq

/-! ### Interleavings -/

/-- The files of a store with the puts on it. -/
structure State (ι : Type) where
  tree : FileTree
  stage : ι → Stage
  /-- The calls that have ended, with their answers.  A put succeeds in the step that renames. -/
  log : List Exchange

/-- What happens next: a put makes a step, or a get is made, whose read may be refused. -/
inductive Event (ι : Type) where
  | put (i : ι) (turn : Turn)
  | get (key : String) (refused : Option FileError)

/-- What a put tells when it leaves one stage for another. -/
def Writer.told (w : Writer) : Stage → Stage → List Exchange
  | .ended _, _ => []
  | _, .ended answer => [.put w.key w.token w.data answer]
  | _, _ => []

/-- The answer to a get whose read may be refused. -/
def getUnless (refused : Option FileError) (t : FileTree) (key : String) :
    Except Error (Option ByteArray) :=
  match refused, Location.ofKey? key with
  | some e, some _ => .error (.failed .read e)
  | _, _ => get t key

section Run

variable {ι : Type}

/-- A fresh store on which no put has made a step. -/
def State.start : State ι :=
  ⟨.empty, fun _ => .called, []⟩

variable [DecidableEq ι]

/-- What an event makes of a store. -/
def State.next (writers : ι → Writer) (s : State ι) : Event ι → State ι
  | .put i turn =>
    let after := (writers i).step s.tree turn (s.stage i)
    ⟨after.1, Function.update s.stage i after.2, s.log ++ (writers i).told (s.stage i) after.2⟩
  | .get key refused => ⟨s.tree, s.stage, s.log ++ [.get key (getUnless refused s.tree key)]⟩

/-- What has become of a fresh store. -/
def interleave (writers : ι → Writer) (events : List (Event ι)) : State ι :=
  events.foldl (State.next writers) .start

end Run

variable {ι : Type}

/-! ### Temporary names -/

/-- A put has its temporary file at the path. -/
def IsTemporary (writers : ι → Writer) (p : Path) : Prop :=
  ∃ i, ∃ l ∈ Location.ofKey? (writers i).key, p = temporary l.path (writers i).token

/-- No two puts share a temporary file, and none has its blob where one has its temporary file.  The
token of a put is drawn afresh, so no other name holds it. -/
structure HaveOwnNames (writers : ι → Writer) : Prop where
  distinct : ∀ i j, ∀ l ∈ Location.ofKey? (writers i).key, ∀ l' ∈ Location.ofKey? (writers j).key,
    temporary l.path (writers i).token = temporary l'.path (writers j).token → i = j
  apart : ∀ i j, ∀ l ∈ Location.ofKey? (writers i).key, ∀ l' ∈ Location.ofKey? (writers j).key,
    l.path ≠ temporary l'.path (writers j).token

/-! ### The ledger -/

/-- The files agree with the calls that have ended: they are those of the last puts, and temporary
files of puts that are under way. -/
structure Ledger (writers : ι → Writer) (files : Path → Option ByteArray) (stage : ι → Stage)
    (log : List Exchange) : Prop where
  placed : ∀ p data, lastPut log p = some data → files p = some data
  owned : ∀ p data, files p = some data → lastPut log p = some data ∨
    ∃ i l, Location.ofKey? (writers i).key = some l ∧ (stage i).HasFile ∧
      p = temporary l.path (writers i).token
  origin : ∀ key token data, .put key token data (.ok ()) ∈ log → ∃ i l,
    writers i = ⟨key, token, data⟩ ∧ Location.ofKey? key = some l ∧ stage i = .ended (.ok ())
  reads : ∀ before key blob after, log = before ++ .get key (.ok blob) :: after →
    ¬IsTemporary writers (components key) → blob = lastPut before (components key)

/-- What was put last at a path was put by a call. -/
theorem exists_put_of_lastPut {xs : List Exchange} {p : Path} {data : ByteArray}
    (h : lastPut xs p = some data) :
    ∃ key token, .put key token data (.ok ()) ∈ xs ∧ components key = p := by
  obtain ⟨x, hmem, hx⟩ := List.exists_of_findSome?_eq_some h
  rw [List.mem_reverse] at hmem
  cases x with
  | get key answer => simp [Exchange.puts?] at hx
  | put key token bytes answer =>
    cases answer with
    | error e => simp [Exchange.puts?] at hx
    | ok u =>
      obtain ⟨hkey, rfl⟩ : components key = p ∧ bytes = data := by
        simpa [Exchange.puts?] using hx
      exact ⟨key, token, hmem, hkey⟩

/-- A call in a longer history was there before, or is the last one. -/
theorem concat_split {xs before after : List Exchange} {x y : Exchange}
    (h : xs ++ [x] = before ++ y :: after) :
    (∃ rest, xs = before ++ y :: rest) ∨ xs = before ∧ x = y := by
  rcases List.eq_nil_or_concat after with rfl | ⟨rest, z, rfl⟩
  · obtain ⟨hfront, hlast⟩ := List.append_inj' h rfl
    exact Or.inr ⟨hfront, List.singleton_inj.1 hlast⟩
  · have h : xs ++ [x] = (before ++ y :: rest) ++ [z] := by simpa using h
    exact Or.inl ⟨rest, (List.append_inj' h rfl).1⟩

namespace Ledger

variable {writers : ι → Writer} {files files' : Path → Option ByteArray} {stage : ι → Stage}
  {log : List Exchange} {i : ι} {l : Location} {p : Path} {data : ByteArray} {after : Stage}

/-- No put has its blob at the path of a temporary file. -/
theorem not_isTemporary (h : Ledger writers files stage log) (own : HaveOwnNames writers)
    (hlast : lastPut log p = some data) : ¬IsTemporary writers p := by
  obtain ⟨key, token, hmem, rfl⟩ := exists_put_of_lastPut hlast
  obtain ⟨i, l, hwriter, hkey, -⟩ := h.origin key token data hmem
  rw [← path_of_ofKey? hkey]
  rintro ⟨j, l', hj, hpath⟩
  exact own.apart i j l (by rw [hwriter, hkey]; rfl) l' hj hpath

/-- A file that is not temporary is that of the last put. -/
theorem lastPut_eq (h : Ledger writers files stage log) (hp : ¬IsTemporary writers p)
    (hfile : files p = some data) : lastPut log p = some data := by
  rcases h.owned p data hfile with hlast | ⟨i, l, hkey, -, rfl⟩
  · exact hlast
  · exact absurd ⟨i, l, hkey, rfl⟩ hp

/-- A call that puts nothing. -/
theorem concat (h : Ledger writers files stage log) {x : Exchange} (hx : ∀ p, x.puts? p = none)
    (hread : ∀ key blob, x = .get key (.ok blob) → ¬IsTemporary writers (components key) →
      blob = lastPut log (components key)) :
    Ledger writers files stage (log ++ [x]) := by
  have hlast (p : Path) : lastPut (log ++ [x]) p = lastPut log p := by
    rw [lastPut_concat, hx, Option.none_or]
  refine ⟨fun p data hp => h.placed p data (hlast p ▸ hp), fun p data hp => ?_,
    fun key token data hmem => ?_, fun before key blob after hlog hkey => ?_⟩
  · rw [hlast]
    exact h.owned p data hp
  · rcases List.mem_append.1 hmem with hmem | hmem
    · exact h.origin key token data hmem
    · have hput := hx (components key)
      rw [← List.mem_singleton.1 hmem] at hput
      simp [Exchange.puts?] at hput
  · rcases concat_split hlog with ⟨rest, hlog⟩ | ⟨rfl, hx⟩
    · exact h.reads before key blob rest hlog hkey
    · exact hread key blob hx hkey

section Update

variable [DecidableEq ι]

/-- A put that has succeeded keeps its stage while another one goes on. -/
theorem origin_update (h : Ledger writers files stage log) (going : (stage i).IsGoing)
    (after : Stage) {key token : String} (hmem : .put key token data (.ok ()) ∈ log) : ∃ j l,
    writers j = ⟨key, token, data⟩ ∧ Location.ofKey? key = some l ∧
      Function.update stage i after j = .ended (.ok ()) := by
  obtain ⟨j, l, hwriter, hkey, hended⟩ := h.origin key token data hmem
  refine ⟨j, l, hwriter, hkey, ?_⟩
  have hne : j ≠ i := by
    rintro rfl
    rw [hended] at going
    exact going
  rw [Function.update_of_ne hne, hended]

/-- A temporary file stays that of its put. -/
theorem owned_update (h : Ledger writers files stage log) (hp : files p = some data)
    (hother : ∀ l, Location.ofKey? (writers i).key = some l → (stage i).HasFile →
      p = temporary l.path (writers i).token → after.HasFile) :
    lastPut log p = some data ∨ ∃ j l, Location.ofKey? (writers j).key = some l ∧
      (Function.update stage i after j).HasFile ∧ p = temporary l.path (writers j).token := by
  rcases h.owned p data hp with hlast | ⟨j, l, hkey, hfile, hpath⟩
  · exact Or.inl hlast
  · refine Or.inr ⟨j, l, hkey, ?_, hpath⟩
    by_cases hj : j = i
    · subst hj
      rw [Function.update_self]
      exact hother l hkey hfile hpath
    · rw [Function.update_of_ne hj]
      exact hfile

/-- A put that goes on without touching files. -/
theorem quiet (h : Ledger writers files stage log) (going : (stage i).IsGoing)
    (hfile : ∀ l, Location.ofKey? (writers i).key = some l → (stage i).HasFile → after.HasFile) :
    Ledger writers files (Function.update stage i after) log :=
  ⟨h.placed, fun _ _ hp => h.owned_update hp fun l hl hi _ => hfile l hl hi,
    fun _ _ _ hmem => h.origin_update going after hmem, h.reads⟩

/-- A put that changes no file but its temporary one. -/
theorem touched (h : Ledger writers files stage log) (own : HaveOwnNames writers)
    (going : (stage i).IsGoing) (hkey : Location.ofKey? (writers i).key = some l)
    (content : Option ByteArray) (hafter : ∀ bytes, content = some bytes → after.HasFile)
    (hfiles : ∀ q, files' q =
      if q = temporary l.path (writers i).token then content else files q) :
    Ledger writers files' (Function.update stage i after) log := by
  refine ⟨fun p data hlast => ?_, fun p data hp => ?_,
    fun _ _ _ hmem => h.origin_update going after hmem, h.reads⟩
  · have hne : p ≠ temporary l.path (writers i).token := by
      rintro rfl
      exact h.not_isTemporary own hlast ⟨i, l, hkey, rfl⟩
    rw [hfiles, if_neg hne]
    exact h.placed p data hlast
  · rw [hfiles] at hp
    split at hp
    · rename_i hpath
      refine Or.inr ⟨i, l, hkey, ?_, hpath⟩
      rw [Function.update_self]
      exact hafter data hp
    · rename_i hne
      refine h.owned_update hp fun l' hkey' _ hpath => absurd ?_ hne
      obtain rfl := Option.some.inj (hkey.symm.trans hkey')
      exact hpath

/-- A put whose temporary file takes its place. -/
theorem renamed (h : Ledger writers files stage log) (own : HaveOwnNames writers)
    (going : (stage i).IsGoing) (hkey : Location.ofKey? (writers i).key = some l)
    (hfiles : ∀ q, files' q = if q = l.path then some (writers i).data
      else if q = temporary l.path (writers i).token then none else files q) :
    Ledger writers files' (Function.update stage i (.ended (.ok ())))
      (log ++ [.put (writers i).key (writers i).token (writers i).data (.ok ())]) := by
  -- What the put leaves at other paths is what it would leave if its file were only removed.
  have hrest : Ledger writers
      (fun q => if q = temporary l.path (writers i).token then none else files q)
      (Function.update stage i (.ended (.ok ()))) log :=
    h.touched own going hkey none nofun fun _ => rfl
  have hpath : l.path = components (writers i).key := path_of_ofKey? hkey
  refine ⟨fun p data hlast => ?_, fun p data hp => ?_, fun key token data hmem => ?_,
    fun before key blob after hlog hread => ?_⟩
  · rw [lastPut_put_ok, ← hpath] at hlast
    rw [hfiles]
    split at hlast
    · rename_i hp
      rw [if_pos hp, hlast]
    · rename_i hp
      rw [if_neg hp]
      exact hrest.placed p data hlast
  · rw [lastPut_put_ok, ← hpath]
    rw [hfiles] at hp
    split at hp
    · rename_i heq
      rw [if_pos heq]
      exact Or.inl hp
    · rename_i hne
      rw [if_neg hne]
      exact hrest.owned p data hp
  · rcases List.mem_append.1 hmem with hmem | hmem
    · exact hrest.origin key token data hmem
    · obtain ⟨rfl, rfl, rfl, -⟩ := Exchange.put.inj (List.mem_singleton.1 hmem)
      exact ⟨i, l, rfl, hkey, Function.update_self _ _ _⟩
  · rcases concat_split hlog with ⟨rest, hlog⟩ | ⟨-, hx⟩
    · exact h.reads before key blob rest hlog hread
    · exact nomatch hx

end Update

end Ledger

/-! ### Runs -/

/-- What is true of a store however its calls are interleaved. -/
structure Sound (writers : ι → Writer) (s : State ι) : Prop where
  isMap : s.tree.IsMap
  isReached : s.tree.IsReached
  onTrack : ∀ i l, Location.ofKey? (writers i).key = some l →
    OnTrack s.tree l (writers i).token (writers i).data (s.stage i)
  ledger : Ledger writers s.tree.file? s.stage s.log
  told : ∀ i answer, s.stage i = .ended answer →
    .put (writers i).key (writers i).token (writers i).data answer ∈ s.log

namespace Writer

variable (w : Writer) {before after : Stage}

theorem told_going (hafter : after.IsGoing) : w.told before after = [] := by
  cases after with
  | ended answer => exact absurd hafter id
  | called | creating here rest | writing n | removing e => cases before <;> rfl

theorem told_ended (hbefore : before.IsGoing) (answer : Except Error Unit) :
    w.told before (.ended answer) = [.put w.key w.token w.data answer] := by
  cases before with
  | ended answer => exact absurd hbefore id
  | called | creating here rest | writing n | removing e => rfl

end Writer

theorem Ledger.concat_error {writers : ι → Writer} {files : Path → Option ByteArray}
    {stage : ι → Stage} {log : List Exchange} (h : Ledger writers files stage log)
    (key token : String) (data : ByteArray) (e : Error) :
    Ledger writers files stage (log ++ [.put key token data (.error e)]) :=
  h.concat (fun _ => rfl) nofun

/-- What a step does to the files agrees with what the put tells. -/
theorem Ledger.moves [DecidableEq ι] {writers : ι → Writer} {t t' : FileTree} {stage : ι → Stage}
    {log : List Exchange} {i : ι} {l : Location} {before after : Stage}
    (h : Ledger writers t.file? stage log) (own : HaveOwnNames writers) (hreached : t.IsReached)
    (hkey : Location.ofKey? (writers i).key = some l) (hbefore : stage i = before)
    (hgoing : before.IsGoing)
    (moves : Moves t l (writers i).token (writers i).data before t' after) :
    Ledger writers t'.file? (Function.update stage i after)
      (log ++ (writers i).told before after) := by
  have going : (stage i).IsGoing := hbefore ▸ hgoing
  cases moves with
  | starts valid =>
    rw [Writer.told_going _ (by trivial), List.append_nil]
    exact h.quiet going fun _ _ => by rw [hbefore]; exact id
  | enters there look =>
    rw [Writer.told_going _ (by trivial), List.append_nil]
    exact h.quiet going fun _ _ => by rw [hbefore]; exact id
  | creates new look =>
    have hsame : (t.set _ .directory).file? = t.file? :=
      funext fun q => FileTree.file?_set_directory new
    rw [Writer.told_going _ (by trivial), List.append_nil, hsame]
    exact h.quiet going fun _ _ => by rw [hbefore]; exact id
  | fails early e =>
    rw [Writer.told_ended _ hgoing]
    exact (h.quiet going fun _ _ hfile =>
      absurd (hbefore ▸ hfile) early.not_hasFile).concat_error _ _ _ e
  | writes _ le dir named free =>
    rw [Writer.told_going _ (by trivial), List.append_nil]
    exact h.touched own going hkey _ (fun _ _ => trivial) fun q => FileTree.file?_set_file
  | spoils _ e =>
    rw [Writer.told_going _ (by trivial), List.append_nil]
    exact h.quiet going fun _ _ _ => trivial
  | renames plain dir named written free =>
    rw [Writer.told_ended _ hgoing]
    exact h.renamed own going hkey fun q => by rw [FileTree.file?_set_file, FileTree.file?_erase]
  | removes e =>
    rw [Writer.told_ended _ hgoing]
    exact (h.touched own going hkey none nofun
      fun q => hreached.file?_remove).concat_error _ _ _ e
  | rests answer => exact absurd hgoing id

namespace Sound

variable {writers : ι → Writer} {s : State ι} {i : ι} {l : Location}

theorem start (writers : ι → Writer) : Sound writers .start := by
  refine ⟨FileTree.isMap_empty, FileTree.isReached_empty, fun _ _ _ => trivial, ?_,
    fun _ _ => nofun⟩
  refine ⟨fun _ _ => nofun, fun _ _ => nofun, fun _ _ _ => nofun, fun before _ _ after h => ?_⟩
  exact absurd h.symm (List.append_ne_nil_of_right_ne_nil before (List.cons_ne_nil _ after))

/-- A get that is answered finds the bytes of the last put. -/
theorem getUnless_eq_ok (h : Sound writers s) {key : String} {refused : Option FileError}
    {blob : Option ByteArray} (hanswer : getUnless refused s.tree key = .ok blob)
    (hown : ¬IsTemporary writers (components key)) : blob = lastPut s.log (components key) := by
  have hget : get s.tree key = .ok blob := by
    unfold getUnless at hanswer
    split at hanswer
    · exact nomatch hanswer
    · exact hanswer
  unfold get at hget
  split at hget
  · exact nomatch hget
  · rename_i l hkey
    rw [← path_of_ofKey? hkey] at hown ⊢
    split at hget
    · rename_i data hread
      obtain rfl := Except.ok.inj hget
      exact (h.ledger.lastPut_eq hown (FileTree.file?_of_read hread)).symm
    · rename_i hread
      obtain rfl := Except.ok.inj hget
      cases hlast : lastPut s.log l.path with
      | none => rfl
      | some data =>
        -- What was put last is there to be found.
        have hfile := h.ledger.placed l.path data hlast
        rw [h.isReached.file?_of_read hread] at hfile
        exact hfile
    · exact nomatch hget

section Next

variable [DecidableEq ι]

theorem next_ended {answer : Except Error Unit} (hended : s.stage i = .ended answer)
    (turn : Turn) : s.next writers (.put i turn) = s := by
  obtain ⟨tree, stage, log⟩ := s
  simp only at hended
  simp only [State.next, hended, Writer.step_ended, Writer.told, List.append_nil]
  rw [← hended, Function.update_eq_self]

/-- A put tells its answer when it ends. -/
theorem told_update (h : Sound writers s) (hgoing : (s.stage i).IsGoing) {after : Stage} {j : ι}
    {answer : Except Error Unit} (hended : Function.update s.stage i after j = .ended answer) :
    .put (writers j).key (writers j).token (writers j).data answer ∈
      s.log ++ (writers i).told (s.stage i) after := by
  by_cases hj : j = i
  · subst hj
    rw [Function.update_self] at hended
    rw [hended, (writers j).told_ended hgoing]
    exact List.mem_append_right _ (List.mem_singleton_self _)
  · rw [Function.update_of_ne hj] at hended
    exact List.mem_append_left _ (h.told j answer hended)

/-- A put under an invalid key fails at once. -/
theorem next_invalid (h : Sound writers s) (hkey : Location.ofKey? (writers i).key = none)
    (hgoing : (s.stage i).IsGoing) (turn : Turn) :
    Sound writers (s.next writers (.put i turn)) := by
  simp only [State.next]
  rw [(writers i).step_invalid s.tree turn hkey hgoing]
  refine ⟨h.isMap, h.isReached, fun j l hj => ?_, ?_, fun j answer => h.told_update hgoing⟩
  · have hne : j ≠ i := by
      rintro rfl
      exact nomatch hkey.symm.trans hj
    simp only [Function.update_of_ne hne]
    exact h.onTrack j l hj
  · rw [(writers i).told_ended hgoing]
    exact (h.ledger.quiet hgoing fun l hl => nomatch hkey.symm.trans hl).concat_error _ _ _ _

/-- A put that makes a step. -/
theorem next_put (h : Sound writers s) (own : HaveOwnNames writers) (i : ι) (turn : Turn) :
    Sound writers (s.next writers (.put i turn)) := by
  by_cases hgoing : (s.stage i).IsGoing
  · cases hkey : Location.ofKey? (writers i).key with
    | none => exact h.next_invalid hkey hgoing turn
    | some l =>
      have hl : l.path ≠ [] := (isBelow_of_ofKey? hkey).ne_nil
      have onTrack := h.onTrack i l hkey
      have moves := moves_stepAt hl onTrack turn
      simp only [State.next, (writers i).step_eq s.tree turn (s.stage i) hkey]
      generalize (stepAt s.tree l (writers i).token (writers i).data turn (s.stage i)).1 = t',
        (stepAt s.tree l (writers i).token (writers i).data turn (s.stage i)).2 = after at moves ⊢
      obtain ⟨hmap, hreached, kept⟩ := isReached_of_moves hl moves h.isMap h.isReached
      refine ⟨hmap, hreached, fun j l' hj => ?_,
        h.ledger.moves own h.isReached hkey rfl hgoing moves,
        fun j answer => h.told_update hgoing⟩
      by_cases hji : j = i
      · subst hji
        obtain rfl := Option.some.inj (hkey.symm.trans hj)
        simp only [Function.update_self]
        exact onTrack_of_moves onTrack moves
      · -- The other puts have temporary files of their own.
        simp only [Function.update_of_ne hji]
        refine (h.onTrack j l' hj).mono kept (file?_of_moves moves h.isReached ?_ ?_)
        · exact fun hsame => hji (own.distinct j i l' hj l hkey hsame)
        · exact fun hsame => own.apart i j l hkey l' hj hsame.symm
  · obtain ⟨answer, hended⟩ := Stage.exists_eq_ended hgoing
    rw [next_ended hended]
    exact h

theorem next_get (h : Sound writers s) (key : String) (refused : Option FileError) :
    Sound writers (s.next writers (.get key refused)) := by
  refine ⟨h.isMap, h.isReached, h.onTrack, h.ledger.concat (fun _ => rfl) ?_,
    fun i answer hended => List.mem_append_left _ (h.told i answer hended)⟩
  intro key' blob hget hkey
  obtain ⟨rfl, hanswer⟩ := Exchange.get.inj hget
  exact h.getUnless_eq_ok hanswer hkey

theorem next (h : Sound writers s) (own : HaveOwnNames writers) (event : Event ι) :
    Sound writers (s.next writers event) := by
  cases event with
  | put i turn => exact h.next_put own i turn
  | get key refused => exact h.next_get key refused

/-- Puts with names of their own stay sound, whatever happens. -/
theorem foldl_next (h : Sound writers s) (own : HaveOwnNames writers) (events : List (Event ι)) :
    Sound writers (events.foldl (State.next writers) s) := by
  induction events generalizing s with
  | nil => exact h
  | cons event events ih => exact ih (h.next own event)

end Next

end Sound

/-! ### Puts end -/

/-- The event is a step of a put. -/
def Event.isStepOf [DecidableEq ι] (i : ι) : Event ι → Bool
  | put j _ => j == i
  | get _ _ => false

theorem left_foldl_next [DecidableEq ι] (writers : ι → Writer) (i : ι) (events : List (Event ι))
    (s : State ι) : (writers i).left ((events.foldl (State.next writers) s).stage i) ≤
      (writers i).left (s.stage i) - events.countP (Event.isStepOf i) := by
  induction events generalizing s with
  | nil => exact Nat.le_refl _
  | cons event events ih =>
    rw [List.foldl_cons, List.countP_cons]
    refine Nat.le_trans (ih (s.next writers event)) ?_
    cases event with
    | get key refused =>
      simp only [State.next, Event.isStepOf, Bool.false_eq_true, if_false]
      omega
    | put j turn =>
      by_cases hj : j = i
      · subst hj
        have hstep := (writers j).left_step_le s.tree turn (s.stage j)
        simp only [State.next, Event.isStepOf, Function.update_self, beq_self_eq_true, if_true]
        omega
      · have hne : (j == i) = false := beq_eq_false_iff_ne.2 hj
        simp only [State.next, Event.isStepOf, Function.update_of_ne (Ne.symm hj), hne,
          Bool.false_eq_true, if_false]
        omega

/-- A put ends after so many steps of its own, whatever other calls do in between. -/
theorem ended_of_steps [DecidableEq ι] {writers : ι → Writer} {i : ι} {events : List (Event ι)}
    (h : (writers i).left .called ≤ events.countP (Event.isStepOf i)) :
    ∃ answer, (interleave writers events).stage i = .ended answer := by
  have hleft := left_foldl_next writers i events .start
  rw [State.start, Nat.sub_eq_zero_of_le h] at hleft
  exact Writer.exists_eq_ended (Nat.le_zero.1 hleft)

/-! ### Puts do not mix -/

/-- Puts on one store do not mix. -/
structure NeverMix (writers : ι → Writer) (s : State ι) : Prop where
  /-- A get that is answered returns the bytes that were renamed last to its path before, if there
  are any. -/
  read : ∀ before key blob after, s.log = before ++ .get key (.ok blob) :: after →
    ¬IsTemporary writers (components key) → blob = lastPut before (components key)
  /-- Those are the whole blob of a single put. -/
  single : ∀ before after p data, s.log = before ++ after → lastPut before p = some data →
    ∃ i, components (writers i).key = p ∧ (writers i).data = data ∧ s.stage i = .ended (.ok ())
  /-- Every put that has ended has told its answer, in the step that made it. -/
  told : ∀ i answer, s.stage i = .ended answer →
    .put (writers i).key (writers i).token (writers i).data answer ∈ s.log
  /-- At any time, the files are what was renamed last, but for the temporary files. -/
  files : ∀ p data, ¬IsTemporary writers p →
    ((p, data) ∈ s.tree.files ↔ lastPut s.log p = some data)
  /-- While no put is under way, no temporary file remains. -/
  settled : (∀ i, s.stage i = .called ∨ ∃ answer, s.stage i = .ended answer) →
    (∀ p data, (p, data) ∈ s.tree.files ↔ lastPut s.log p = some data) ∧
      ∀ p data, IsTemporary writers p → (p, data) ∉ s.tree.files
  /-- Every path holds one blob. -/
  nodup : (s.tree.files.map Prod.fst).Nodup

theorem Sound.neverMix {writers : ι → Writer} {s : State ι} (h : Sound writers s)
    (own : HaveOwnNames writers) : NeverMix writers s := by
  have hfiles (p : Path) (data : ByteArray) :
      (p, data) ∈ s.tree.files ↔ s.tree.file? p = some data := by
    rw [FileTree.mem_files_iff h.isMap, FileTree.file?_eq_some_iff]
  refine ⟨h.ledger.reads, ?_, h.told, ?_, ?_, FileTree.nodup_files h.isMap⟩
  · intro before after p data hlog hlast
    obtain ⟨key, token, hmem, rfl⟩ := exists_put_of_lastPut hlast
    have hmem : .put key token data (.ok ()) ∈ s.log := by
      rw [hlog]
      exact List.mem_append_left after hmem
    obtain ⟨i, l, hwriter, -, hended⟩ := h.ledger.origin key token data hmem
    exact ⟨i, by rw [hwriter], by rw [hwriter], hended⟩
  · intro p data hp
    rw [hfiles]
    exact ⟨h.ledger.lastPut_eq hp, h.ledger.placed p data⟩
  · intro hsettled
    have hlast (p : Path) (data : ByteArray) :
        (p, data) ∈ s.tree.files ↔ lastPut s.log p = some data := by
      rw [hfiles]
      refine ⟨fun hfile => ?_, h.ledger.placed p data⟩
      rcases h.ledger.owned p data hfile with hlast | ⟨i, l, hkey, hhas, hpath⟩
      · exact hlast
      · -- The only put that could have it is not under way.
        rcases hsettled i with hcalled | ⟨answer, hended⟩
        · rw [hcalled] at hhas
          exact absurd hhas id
        · rw [hended] at hhas
          exact absurd hhas id
    refine ⟨hlast, fun p data hp hmem => ?_⟩
    exact h.ledger.not_isTemporary own ((hlast p data).1 hmem) hp

/-- However puts with temporary files of their own and gets are interleaved, they do not mix. -/
theorem neverMix_interleave [DecidableEq ι] (writers : ι → Writer) (own : HaveOwnNames writers)
    (events : List (Event ι)) : NeverMix writers (interleave writers events) :=
  ((Sound.start writers).foldl_next own events).neverMix own

instance {α : Type} [DecidableEq α] : DecidableEq (Except Error α)
  | .ok a, .ok b => decidable_of_iff (a = b) ⟨congrArg _, Except.ok.inj⟩
  | .error e, .error f => decidable_of_iff (e = f) ⟨congrArg _, Except.error.inj⟩
  | .ok _, .error _ => isFalse nofun
  | .error _, .ok _ => isFalse nofun

deriving instance DecidableEq for Exchange

/-- Three puts under one key, of which the first begins first and is renamed last, and the third is
refused in the middle of its blob; gets see the blob of the second and then that of the first. -/
theorem neverMix_interleave_threePuts :
    ∃ (writers : Fin 3 → Writer) (events : List (Event (Fin 3))), HaveOwnNames writers ∧
      NeverMix writers (interleave writers events) ∧
      (interleave writers events).log =
        [.get "a/b" (.ok none), .put "a/b" "2" ⟨#[3]⟩ (.ok ()), .get "a/b" (.ok (some ⟨#[3]⟩)),
          .put "a/b" "1" ⟨#[1, 2]⟩ (.ok ()), .get "a/b" (.ok (some ⟨#[1, 2]⟩)),
          .put "a/b" "3" ⟨#[4, 5]⟩ (.error (.failed .write .nameTooLong))] ∧
      (interleave writers events).tree.files = [(["a", "b"], ⟨#[1, 2]⟩)] := by
  let writers : Fin 3 → Writer := fun
    | 0 => ⟨"a/b", "1", ⟨#[1, 2]⟩⟩
    | 1 => ⟨"a/b", "2", ⟨#[3]⟩⟩
    | 2 => ⟨"a/b", "3", ⟨#[4, 5]⟩⟩
  have own : HaveOwnNames writers := ⟨by decide +kernel, by decide +kernel⟩
  -- The steps of a put: it looks at its key, creates a directory, opens its file, writes, renames.
  let step (i : Fin 3) : Event (Fin 3) := .put i (.done 0)
  let read : Event (Fin 3) := .get "a/b" none
  let events := [step 0, step 0, step 0, step 0, step 1, step 1, step 1, step 1, read, step 1,
    step 2, step 2, step 2, step 2, .put 2 (.refused .nameTooLong), read, step 0, step 0, read,
    step 2]
  exact ⟨writers, events, own, neverMix_interleave writers own events, by decide +kernel,
    by decide +kernel⟩

end Workplane.FileBlobs
