import Mathlib.Data.List.Pairwise
import Workplane.Proofs.KeyStore.Listing
import Workplane.Proofs.KeyStore.Revisions

/-!
# Histories of a store

A history is a list of calls one after another, each at the store that the calls before it have left
(`KeyStore.run`).  What a turn of a history does is one of three things (`Turn.Effect`): it leaves
the store as it is, writes one entry or removes one.

While the count of changes can grow, an entry that is written gets a revision above all that there
are, and this is kept over whole histories: every entry of a later store was there before or has a
greater revision than all that was there (`KeyStore.Evolves`).  So a revision is given once.  The
main statement is `KeyStore.revisions_never_repeat`.
-/

namespace Workplane.KeyStore

/-! ### Calls -/

/-- A call to a store. -/
inductive Command where
  /-- Writes a value under a key that is absent. -/
  | create (key : String) (value : ByteArray)
  /-- Writes a value under a key that has the expected revision. -/
  | compareAndSwap (key : String) (expected : UInt64) (value : ByteArray)
  | delete (key : String)
  | get (key : String)
  | list (start : String)

/-- What a call returns. -/
inductive Result where
  /-- The new revision, unless the key was there. -/
  | created (revision : Option UInt64)
  | swapped (swap : Swap)
  | deleted (existed : Bool)
  | found (entry : Option Entry)
  | listed (entries : List Entry)

/-- What a call returns, and the store after it. -/
def Command.perform : Command → KeyStore → Result × KeyStore
  | create key value, s =>
    let (swap, after) := s.compareAndSwap key 0 value
    (.created (if swap.written then some swap.revision else none), after)
  | compareAndSwap key expected value, s =>
    let (swap, after) := s.compareAndSwap key expected value
    (.swapped swap, after)
  | delete key, s =>
    let (existed, after) := s.delete key
    (.deleted existed, after)
  | get key, s => (.found (s.get? key), s)
  | list start, s => (.listed (s.list start), s)

/-- The call writes a value under a key if the key has a revision. -/
inductive Command.Targets : Command → String → UInt64 → ByteArray → Prop
  | create {key : String} {value : ByteArray} : Targets (.create key value) key 0 value
  | compareAndSwap {key : String} {expected : UInt64} {value : ByteArray} :
    Targets (.compareAndSwap key expected value) key expected value

namespace Result

/-- The revision that a write returns. -/
def written? : Result → Option UInt64
  | created revision => revision
  | swapped swap => if swap.written then some swap.revision else none
  | deleted _ | found _ | listed _ => none

/-- A removal that took place. -/
def hasRemoved : Result → Bool
  | deleted existed => existed
  | created _ | swapped _ | found _ | listed _ => false

/-- The entries that a result shows. -/
def entries : Result → List Entry
  | found entry => entry.toList
  | listed entries => entries
  | created _ | swapped _ | deleted _ => []

/-- The revisions in a result. -/
def revisions : Result → List UInt64
  | created revision => revision.toList
  | swapped swap => [swap.revision]
  | deleted _ => []
  | found entry => entry.toList.map Entry.revision
  | listed entries => entries.map Entry.revision

end Result

/-- A call at a store. -/
structure Turn where
  command : Command
  before : KeyStore

namespace Turn

/-- What the call returns. -/
def result (t : Turn) : Result :=
  (t.command.perform t.before).1

/-- The store after the call. -/
def after (t : Turn) : KeyStore :=
  (t.command.perform t.before).2

/-- The call wrote or removed an entry. -/
def hasChanged (t : Turn) : Bool :=
  t.result.written?.isSome || t.result.hasRemoved

/-- An entry that is stored before or after the call, or that its result shows. -/
def Binds (t : Turn) (e : Entry) : Prop :=
  e ∈ t.before.entries ∨ e ∈ t.after.entries ∨ e ∈ t.result.entries

end Turn

/-- The turns of calls one after another. -/
def run : List Command → KeyStore → List Turn
  | [], _ => []
  | c :: cs, s => ⟨c, s⟩ :: run cs (Turn.after ⟨c, s⟩)

/-- The key has this revision; it is absent if that is zero. -/
def IsCurrent (s : KeyStore) (key : String) (r : UInt64) : Prop :=
  r = 0 ∧ s.get? key = none ∨ r ≠ 0 ∧ ∃ e, s.get? key = some e ∧ e.revision = r

/-- What holds of every turn. -/
structure Turn.Lawful (t : Turn) : Prop where
  stored : ∀ e ∈ t.after.entries, 1 ≤ e.revision ∧ e.revision ≤ t.after.revision
  distinct : ∀ e ∈ t.after.entries, ∀ f ∈ t.after.entries, e.key ≠ f.key → e.revision ≠ f.revision
  /-- A conditional write takes place exactly if the key has the expected revision. -/
  conditional : ∀ key expected value, t.command.Targets key expected value →
    (t.result.written?.isSome = true ↔ t.before.IsCurrent key expected)
  written : ∀ key expected value n, t.command.Targets key expected value →
    t.result.written? = some n → t.after.get? key = some ⟨key, value, n⟩
  unchanged : t.hasChanged = false → t.after = t.before

/-! ### What a turn does -/

section Turns

variable {s : KeyStore} {t : Turn} {key : String} {expected : UInt64} {value : ByteArray}

theorem Command.perform_create (s : KeyStore) (key : String) (value : ByteArray) :
    (create key value).perform s =
      if s.revisionOf key = 0 then (.created (some s.nextRevision), s.write key value)
      else (.created none, s) := by
  by_cases h : s.revisionOf key = 0
  · simp [perform, compareAndSwap_of_eq h, h]
  · simp [perform, compareAndSwap_of_ne h, h]

theorem Command.perform_compareAndSwap (s : KeyStore) (key : String) (expected : UInt64)
    (value : ByteArray) :
    (compareAndSwap key expected value).perform s =
      if s.revisionOf key = expected then (.swapped ⟨true, s.nextRevision⟩, s.write key value)
      else (.swapped ⟨false, s.revisionOf key⟩, s) := by
  by_cases h : s.revisionOf key = expected
  · simp [perform, compareAndSwap_of_eq h, h]
  · simp [perform, compareAndSwap_of_ne h, h]

/-- A conditional write happens exactly at the revision that it expects. -/
theorem Turn.written?_of_targets (h : t.command.Targets key expected value) :
    t.result.written? =
      if t.before.revisionOf key = expected then some t.before.nextRevision else none := by
  obtain ⟨command, before⟩ := t
  cases h with
  | create =>
    rw [result, Command.perform_create]
    by_cases hrevision : before.revisionOf key = 0
    · simp [hrevision, Result.written?]
    · simp [hrevision, Result.written?]
  | compareAndSwap =>
    rw [result, Command.perform_compareAndSwap]
    by_cases hrevision : before.revisionOf key = expected
    · simp [hrevision, Result.written?]
    · simp [hrevision, Result.written?]

/-- A conditional write that is refused leaves the store as it was. -/
theorem Turn.after_of_targets (h : t.command.Targets key expected value) :
    t.after = if t.before.revisionOf key = expected then t.before.write key value else t.before := by
  obtain ⟨command, before⟩ := t
  cases h with
  | create =>
    rw [after, Command.perform_create]
    by_cases hrevision : before.revisionOf key = 0
    · simp [hrevision]
    · simp [hrevision]
  | compareAndSwap =>
    rw [after, Command.perform_compareAndSwap]
    by_cases hrevision : before.revisionOf key = expected
    · simp [hrevision]
    · simp [hrevision]

/-- What a turn does to the store, and what its result tells. -/
inductive Turn.Effect (t : Turn) : Prop
  | kept (after : t.after = t.before) (written : t.result.written? = none)
    (changed : t.hasChanged = false) (entries : ∀ e ∈ t.result.entries, e ∈ t.before.entries)
    (revisions : ∀ r ∈ t.result.revisions, ∃ key, r = t.before.revisionOf key)
  | wrote (key : String) (value : ByteArray) (after : t.after = t.before.write key value)
    (written : t.result.written? = some t.before.nextRevision) (changed : t.hasChanged = true)
    (entries : t.result.entries = []) (revisions : t.result.revisions = [t.before.nextRevision])
  | removed (key : String) (existed : (t.before.get? key).isSome = true)
    (after : t.after = (t.before.delete key).2) (written : t.result.written? = none)
    (changed : t.hasChanged = true) (entries : t.result.entries = [])
    (revisions : t.result.revisions = [])

theorem Turn.effect_of_kept {r : Result} (h : t.command.perform t.before = (r, t.before))
    (written : r.written? = none) (removed : r.hasRemoved = false)
    (entries : ∀ e ∈ r.entries, e ∈ t.before.entries)
    (revisions : ∀ n ∈ r.revisions, ∃ key, n = t.before.revisionOf key) : t.Effect := by
  have hresult : t.result = r := by rw [result, h]
  have hchanged : t.hasChanged = false := by
    rw [hasChanged, hresult, written, removed]
    rfl
  subst hresult
  exact .kept (by rw [after, h]) written hchanged entries revisions

/-- A turn that writes shows the revision that it has given out. -/
theorem Turn.effect_of_written {r : Result}
    (h : t.command.perform t.before = (r, t.before.write key value))
    (written : r.written? = some t.before.nextRevision) (entries : r.entries = [])
    (revisions : r.revisions = [t.before.nextRevision]) : t.Effect := by
  have hresult : t.result = r := by rw [result, h]
  have hchanged : t.hasChanged = true := by
    rw [hasChanged, hresult, written]
    rfl
  subst hresult
  exact .wrote key value (by rw [after, h]) written hchanged entries revisions

/-- What any command can do, told once for all of them. -/
theorem Turn.effect (t : Turn) : t.Effect := by
  obtain ⟨command, before⟩ := t
  have hrevision {e : Entry} (he : e ∈ before.entries) :
      ∃ key, e.revision = before.revisionOf key :=
    ⟨e.key, (revisionOf_of_get? (Sorted.find?_eq_some_of_mem before.sorted he)).symm⟩
  cases command with
  | create key value =>
    have hperform := Command.perform_create before key value
    by_cases h : before.revisionOf key = 0
    · rw [if_pos h] at hperform
      exact effect_of_written hperform rfl rfl rfl
    · rw [if_neg h] at hperform
      exact effect_of_kept hperform rfl rfl nofun nofun
  | compareAndSwap key expected value =>
    have hperform := Command.perform_compareAndSwap before key expected value
    by_cases h : before.revisionOf key = expected
    · rw [if_pos h] at hperform
      exact effect_of_written hperform rfl rfl rfl
    · rw [if_neg h] at hperform
      refine effect_of_kept hperform rfl rfl nofun ?_
      -- A refusal tells the revision that the key has.
      intro n hn
      exact ⟨key, List.mem_singleton.1 hn⟩
  | delete key =>
    by_cases h : (before.get? key).isSome = true
    · refine .removed key h rfl rfl ?_ rfl rfl
      exact delete_existed.2 h
    · have hperform : (Command.delete key).perform before = (.deleted false, before) := by
        rw [Command.perform, delete_of_get?_eq_none (by simpa using h)]
      exact effect_of_kept hperform rfl rfl nofun nofun
  | get key =>
    have hmem : ∀ e ∈ (before.get? key).toList, e ∈ before.entries := by
      intro e he
      exact mem_of_get? (Option.mem_toList.1 he)
    refine effect_of_kept rfl rfl rfl hmem ?_
    intro n hn
    obtain ⟨e, he, rfl⟩ := List.mem_map.1 hn
    exact hrevision (hmem e he)
  | list start =>
    have hmem : ∀ e ∈ before.list start, e ∈ before.entries := by
      intro e he
      exact mem_of_get? (mem_list.1 he).1
    refine effect_of_kept rfl rfl rfl hmem ?_
    intro n hn
    obtain ⟨e, he, rfl⟩ := List.mem_map.1 hn
    exact hrevision (hmem e he)

end Turns

/-! ### What a turn keeps -/

section Steps

variable {s s' s'' : KeyStore} {t t' : Turn} {e f : Entry}

/-- Every entry has the number of a change that took place, and no two have the same. -/
structure Sound (s : KeyStore) : Prop where
  valid : s.Valid
  unique : ∀ e ∈ s.entries, ∀ f ∈ s.entries, e.revision = f.revision → e = f

/-- What is in the later store was in the earlier one or has a greater revision than all that was
there. -/
structure Evolves (s s' : KeyStore) : Prop where
  le : s.revision.toNat ≤ s'.revision.toNat
  mem : ∀ e ∈ s'.entries, e ∈ s.entries ∨ s.revision.toNat < e.revision.toNat

theorem Evolves.refl (s : KeyStore) : s.Evolves s :=
  ⟨Nat.le_refl _, fun _ he => Or.inl he⟩

theorem Evolves.trans (h : s.Evolves s') (h' : s'.Evolves s'') : s.Evolves s'' := by
  refine ⟨Nat.le_trans h.le h'.le, fun e he => ?_⟩
  rcases h'.mem e he with he | hlt
  · exact h.mem e he
  · exact Or.inr (Nat.lt_of_le_of_lt h.le hlt)

theorem sound_empty : empty.Sound where
  valid := valid_empty
  unique e he := by simp [empty] at he

/-- No key has a revision above the counter's. -/
theorem Valid.revisionOf_le (h : s.Valid) (key : String) :
    (s.revisionOf key).toNat ≤ s.revision.toNat := by
  cases hget : s.get? key with
  | none =>
    rw [revisionOf_of_get?_eq_none hget]
    exact Nat.zero_le _
  | some e =>
    rw [revisionOf_of_get? hget]
    exact (h e (mem_of_get? hget)).2

/-- A turn at a sound store that can count what the turn changes. -/
structure Turn.Regular (t : Turn) : Prop where
  sound : t.before.Sound
  counts : t.hasChanged = true → t.before.Counts

/-- The counter counts the changes. -/
theorem Turn.Regular.toNat_revision (h : t.Regular) :
    t.after.revision.toNat = t.before.revision.toNat + t.hasChanged.toNat := by
  cases t.effect with
  | kept after _ changed =>
    rw [after, changed]
    rfl
  | wrote key value after _ changed =>
    rw [after, changed]
    exact toNat_nextRevision_of_counts (h.counts changed)
  | removed key existed after _ changed =>
    rw [after, changed, KeyStore.delete, if_pos existed]
    exact toNat_nextRevision_of_counts (h.counts changed)

/-- A turn below the limit evolves the store. -/
theorem Turn.Regular.evolves (h : t.Regular) : t.before.Evolves t.after := by
  refine ⟨?_, ?_⟩
  · rw [h.toNat_revision]
    exact Nat.le_add_right _ _
  · intro e he
    cases t.effect with
    | kept after =>
      rw [after] at he
      exact Or.inl he
    | wrote key value after _ changed =>
      rw [after] at he
      rcases Entry.mem_insert he with rfl | he
      · -- The new entry has the next revision.
        right
        show _ < t.before.nextRevision.toNat
        rw [toNat_nextRevision_of_counts (h.counts changed)]
        exact Nat.lt_succ_self _
      · exact Or.inl he
    | removed key existed after =>
      rw [after, KeyStore.delete, if_pos existed] at he
      exact Or.inl (List.mem_filter.1 he).1

/-- A turn below the limit keeps the store sound. -/
theorem Turn.Regular.sound_after (h : t.Regular) : t.after.Sound := by
  obtain ⟨hvalid, hunique⟩ := h.sound
  cases t.effect with
  | kept after =>
    rw [after]
    exact h.sound
  | wrote key value after _ changed =>
    rw [after]
    -- No entry has the next revision yet.
    have hnew {e : Entry} (he : e ∈ t.before.entries) : e.revision ≠ t.before.nextRevision := by
      intro heq
      have hle := (hvalid e he).2
      rw [heq, toNat_nextRevision_of_counts (h.counts changed)] at hle
      omega
    refine ⟨hvalid.write key value, ?_⟩
    intro e he f hf heq
    rcases Entry.mem_insert he with rfl | he
    · rcases Entry.mem_insert hf with rfl | hf
      · rfl
      · exact absurd heq.symm (hnew hf)
    · rcases Entry.mem_insert hf with rfl | hf
      · exact absurd heq (hnew he)
      · exact hunique e he f hf heq
  | removed key existed after =>
    rw [after]
    refine ⟨hvalid.delete key, ?_⟩
    intro e he f hf heq
    rw [KeyStore.delete, if_pos existed] at he hf
    exact hunique e (List.mem_filter.1 he).1 f (List.mem_filter.1 hf).1 heq

/-! ### Revisions and bindings of turns -/

/-- No result holds a revision that is still to come. -/
theorem Turn.Regular.le_of_mem_revisions (h : t.Regular) {r : UInt64}
    (hr : r ∈ t.result.revisions) : r.toNat ≤ t.after.revision.toNat := by
  cases t.effect with
  | kept after _ _ _ revisions =>
    obtain ⟨key, rfl⟩ := revisions r hr
    rw [after]
    exact h.sound.valid.revisionOf_le key
  | wrote key value after _ _ _ revisions =>
    rw [revisions, List.mem_singleton] at hr
    rw [hr, after]
    exact Nat.le_refl _
  | removed _ _ _ _ _ _ revisions =>
    rw [revisions] at hr
    exact absurd hr List.not_mem_nil

/-- A write returns a revision that has not been there. -/
theorem Turn.Regular.lt_of_written (h : t.Regular) {r : UInt64}
    (hr : t.result.written? = some r) : t.before.revision.toNat < r.toNat := by
  cases t.effect with
  | kept _ written =>
    rw [written] at hr
    exact nomatch hr
  | wrote key value _ written changed =>
    rw [written, Option.some.injEq] at hr
    rw [← hr, toNat_nextRevision_of_counts (h.counts changed)]
    exact Nat.lt_succ_self _
  | removed _ _ _ written =>
    rw [written] at hr
    exact nomatch hr

theorem Turn.mem_of_binds (h : t.Binds e) : e ∈ t.before.entries ∨ e ∈ t.after.entries := by
  rcases h with h | h | h
  · exact Or.inl h
  · exact Or.inr h
  · cases t.effect with
    | kept _ _ _ entries => exact Or.inl (entries e h)
    | wrote _ _ _ _ _ entries =>
      rw [entries] at h
      exact absurd h List.not_mem_nil
    | removed _ _ _ _ _ entries =>
      rw [entries] at h
      exact absurd h List.not_mem_nil

/-- A revision that a turn binds to a value is not above the counter after it. -/
theorem Turn.Regular.le_of_binds (h : t.Regular) (he : t.Binds e) :
    e.revision.toNat ≤ t.after.revision.toNat := by
  rcases t.mem_of_binds he with he | he
  · exact Nat.le_trans (h.sound.valid e he).2 h.evolves.le
  · exact (h.sound_after.valid e he).2

/-- An entry before a turn and one after it that have the same revision are the same. -/
theorem Turn.Regular.eq_of_mem (h : t.Regular) (he : e ∈ t.before.entries)
    (hf : f ∈ t.after.entries) (heq : e.revision = f.revision) : e = f := by
  rcases h.evolves.mem f hf with hf | hlt
  · exact h.sound.unique e he f hf heq
  · have hle := (h.sound.valid e he).2
    rw [heq] at hle
    omega

/-- Where two turns bind the same revision, they bind it to the same entry. -/
def Turn.Agrees (t t' : Turn) : Prop :=
  ∀ e f, t.Binds e → t'.Binds f → e.revision = f.revision → e = f

instance : Std.Symm Turn.Agrees where
  symm _ _ h e f he hf heq := (h f e hf he heq.symm).symm

/-- Within one turn a revision stands for one value. -/
theorem Turn.Regular.agrees_self (h : t.Regular) : t.Agrees t := by
  intro e f he hf heq
  rcases t.mem_of_binds he with he | he
  · rcases t.mem_of_binds hf with hf | hf
    · exact h.sound.unique e he f hf heq
    · exact h.eq_of_mem he hf heq
  · rcases t.mem_of_binds hf with hf | hf
    · exact (h.eq_of_mem hf he heq.symm).symm
    · exact h.sound_after.unique e he f hf heq

/-- What a later turn binds was there after the earlier one, or has a revision of its own. -/
theorem Turn.Regular.agrees_later (h : t.Regular) (h' : t'.Regular)
    (hevolves : t.after.Evolves t'.before) : t.Agrees t' := by
  intro e f he hf heq
  have hmem : f ∈ t.after.entries ∨ t.after.revision.toNat < f.revision.toNat := by
    rcases t'.mem_of_binds hf with hf | hf
    · exact hevolves.mem f hf
    · exact (hevolves.trans h'.evolves).mem f hf
  rcases hmem with hf | hlt
  · exact h.agrees_self e f he (Or.inr (Or.inl hf)) heq
  · have hle := h.le_of_binds he
    rw [heq] at hle
    omega

/-! ### The law of a turn -/

/-- In a sound store the revision of a key tells whether it is there. -/
theorem Sound.revisionOf_eq_iff (h : s.Sound) {key : String} {r : UInt64} :
    s.revisionOf key = r ↔ s.IsCurrent key r := by
  unfold IsCurrent
  constructor
  · rintro rfl
    by_cases hzero : s.revisionOf key = 0
    · exact Or.inl ⟨hzero, h.valid.get?_eq_none hzero⟩
    · right
      cases hget : s.get? key with
      | none => exact absurd (revisionOf_of_get?_eq_none hget) hzero
      | some e => exact ⟨hzero, e, rfl, (revisionOf_of_get? hget).symm⟩
  · rintro (⟨rfl, hget⟩ | ⟨-, e, hget, rfl⟩)
    · exact revisionOf_of_get?_eq_none hget
    · exact revisionOf_of_get? hget

theorem Turn.Regular.lawful (h : t.Regular) : t.Lawful where
  stored e he := by
    have hvalid := h.sound_after.valid e he
    rw [UInt64.le_iff_toNat_le, UInt64.le_iff_toNat_le]
    exact hvalid
  distinct e he f hf hne heq := hne (congrArg Entry.key (h.sound_after.unique e he f hf heq))
  conditional key expected value htargets := by
    rw [written?_of_targets htargets, ← h.sound.revisionOf_eq_iff]
    by_cases hcurrent : t.before.revisionOf key = expected
    · simp [hcurrent]
    · simp [hcurrent]
  written key expected value n htargets hn := by
    rw [written?_of_targets htargets] at hn
    rw [after_of_targets htargets]
    by_cases hcurrent : t.before.revisionOf key = expected
    · rw [if_pos hcurrent, Option.some.injEq] at hn
      rw [if_pos hcurrent, ← hn]
      exact get?_write_self t.before key value
    · rw [if_neg hcurrent] at hn
      exact nomatch hn
  unchanged hchanged := by
    cases t.effect with
    | kept after => exact after
    | wrote _ _ _ _ changed =>
      rw [changed] at hchanged
      exact nomatch hchanged
    | removed _ _ _ _ changed =>
      rw [changed] at hchanged
      exact nomatch hchanged

end Steps

/-! ### Runs -/

section Runs

variable {s : KeyStore} {cs : List Command}

/-- A change that is counted by the store is no longer to be counted. -/
theorem count_after {c : Command} (h : Turn.Regular ⟨c, s⟩) :
    (Turn.after ⟨c, s⟩).revision.toNat + (run cs (Turn.after ⟨c, s⟩)).countP Turn.hasChanged =
      s.revision.toNat + (run (c :: cs) s).countP Turn.hasChanged := by
  have hrevision : (Turn.after ⟨c, s⟩).revision.toNat =
      s.revision.toNat + (Turn.hasChanged ⟨c, s⟩).toNat := h.toNat_revision
  rw [hrevision, run, List.countP_cons]
  cases Turn.hasChanged ⟨c, s⟩ with
  | false => rfl
  | true =>
    simp only [Bool.toNat_true, if_true]
    omega

/-- A run from a sound store goes from sound store to sound store, as long as the changes can be
counted. -/
theorem regular_of_mem_run (hs : s.Sound)
    (hcount : s.revision.toNat + (run cs s).countP Turn.hasChanged < 2 ^ 64) :
    ∀ t ∈ run cs s, t.Regular ∧ s.Evolves t.before := by
  induction cs generalizing s with
  | nil => exact fun t ht => absurd ht List.not_mem_nil
  | cons c cs ih =>
    have hregular : Turn.Regular ⟨c, s⟩ := by
      refine ⟨hs, fun hchanged => ?_⟩
      rw [run, List.countP_cons, if_pos hchanged] at hcount
      show s.revision.toNat + 1 < 2 ^ 64
      omega
    have hrest := ih hregular.sound_after (by rwa [count_after hregular])
    intro t ht
    rcases List.mem_cons.1 ht with rfl | ht
    · exact ⟨hregular, Evolves.refl s⟩
    · obtain ⟨hlater, hevolves⟩ := hrest t ht
      exact ⟨hlater, hregular.evolves.trans hevolves⟩

/-- What holds of every two turns of which the second is at a later store holds along a run. -/
theorem pairwise_run {R : Turn → Turn → Prop}
    (hR : ∀ t t' : Turn, t.Regular → t'.Regular → t.after.Evolves t'.before → R t t')
    (hs : s.Sound) (hcount : s.revision.toNat + (run cs s).countP Turn.hasChanged < 2 ^ 64) :
    (run cs s).Pairwise R := by
  induction cs generalizing s with
  | nil => exact .nil
  | cons c cs ih =>
    have hregular := (regular_of_mem_run hs hcount ⟨c, s⟩ (.head _)).1
    rw [← count_after hregular] at hcount
    refine List.pairwise_cons.2 ⟨?_, ih hregular.sound_after hcount⟩
    intro t ht
    obtain ⟨hlater, hevolves⟩ := regular_of_mem_run hregular.sound_after hcount t ht
    exact hR ⟨c, s⟩ t hregular hlater hevolves

/-- In a run a revision belongs to one entry. -/
theorem agrees_run (hs : s.Sound)
    (hcount : s.revision.toNat + (run cs s).countP Turn.hasChanged < 2 ^ 64) :
    ∀ t ∈ run cs s, ∀ t' ∈ run cs s, t.Agrees t' := by
  have hself : ∀ t ∈ run cs s, t.Agrees t := by
    intro t ht
    exact (regular_of_mem_run hs hcount t ht).1.agrees_self
  have hlater : (run cs s).Pairwise Turn.Agrees := by
    refine pairwise_run ?_ hs hcount
    intro t t' h h' hevolves
    exact h.agrees_later h' hevolves
  intro t ht t' ht'
  exact hlater.forall_of_forall hself ht ht'

end Runs

/-- Revisions never repeat.  In every history of a store that starts empty, as long as the changes
can be counted: every turn is lawful, a write returns a revision above all that were returned
before, and a key and a revision are bound to one value, whatever was removed and created again in
between. -/
theorem revisions_never_repeat (cs : List Command)
    (hcount : (run cs empty).countP Turn.hasChanged < 2 ^ 64 - 1) :
    (∀ t ∈ run cs empty, t.Lawful) ∧
    (run cs empty).Pairwise (fun t t' =>
      ∀ r', t'.result.written? = some r' → ∀ r ∈ t.result.revisions, r < r') ∧
    ∀ t ∈ run cs empty, ∀ t' ∈ run cs empty, ∀ e f, t.Binds e → t'.Binds f →
      e.key = f.key → e.revision = f.revision → e.value = f.value := by
  have hcount : empty.revision.toNat + (run cs empty).countP Turn.hasChanged < 2 ^ 64 := by
    have hzero : empty.revision.toNat = 0 := rfl
    omega
  have hregular := regular_of_mem_run sound_empty hcount
  refine ⟨fun t ht => (hregular t ht).1.lawful, ?_, ?_⟩
  · refine pairwise_run ?_ sound_empty hcount
    intro t t' h h' hevolves r' hr' r hr
    have hle := h.le_of_mem_revisions hr
    have hlt := h'.lt_of_written hr'
    have hgrown := hevolves.le
    rw [UInt64.lt_iff_toNat_lt]
    omega
  · intro t ht t' ht' e f he hf _ heq
    rw [agrees_run sound_empty hcount t ht t' ht' e f he hf heq]

/-- A key is written, written again at its revision, removed, and created once more. -/
def recreation : List Command :=
  [.create "a" ⟨#[1]⟩, .compareAndSwap "a" 1 ⟨#[2]⟩, .delete "a", .compareAndSwap "a" 2 ⟨#[3]⟩,
    .create "a" ⟨#[4]⟩, .list ""]

/-- A key that is deleted and created again gets a new revision. -/
theorem revisions_never_repeat_recreation :
    (run recreation empty).map (fun t => t.result.written?) =
      [some 1, some 2, none, none, some 4, none] ∧
    ∀ t ∈ run recreation empty, t.Lawful := by
  have hcount : (run recreation empty).countP Turn.hasChanged < 2 ^ 64 - 1 := by
    refine Nat.lt_of_le_of_lt List.countP_le_length ?_
    decide
  exact ⟨by decide, (revisions_never_repeat recreation hcount).1⟩

end Workplane.KeyStore
