import Workplane.Proofs.Program.Undisturbed
import Workplane.Proofs.Storage.Snapshots
import Workplane.Proofs.Workspace.Stored

/-!
# Restoring what was backed up

A restore adds the objects of the last snapshot whose keys are free, and changes nothing else.  What
was backed up is recovered (`Repository.Recovers`) exactly if all objects fit into the snapshot and
the objects that are added are read back as they were (`Repository.recovers_iff_fits`): each of them
is written and read once more in the snapshot, and once more in its new entry.
-/

namespace Workplane

variable {α : Type} [Kind α]

namespace Repository

variable {r : Repository α} {s : KeyStore} {b : Backend} {now : Timestamp}

/-! ### Adding what is missing -/

/-- Adds objects whose keys are free; the first component is their number. -/
def addMissing (r : Repository α) : List α → KeyStore → Nat × KeyStore
  | [], s => (0, s)
  | a :: rest, s =>
    if s.get? (r.key (Kind.objectName a)) = none then
      let (count, s) := addMissing r rest (s.write (r.key (Kind.objectName a)) (Kind.encode a))
      (count + 1, s)
    else addMissing r rest s

/-- The objects whose keys are free. -/
def missing (r : Repository α) (s : KeyStore) (as : List α) : List α :=
  as.filter fun a => (s.get? (r.key (Kind.objectName a))).isNone

theorem revisionOf_eq_zero_iff (hs : s.Valid) {key : String} :
    s.revisionOf key = 0 ↔ s.get? key = none :=
  ⟨hs.get?_eq_none, KeyStore.revisionOf_of_get?_eq_none⟩

theorem undisturbed_restoreItem (hb : b.keys.Valid) (a : α) :
    (r.restoreItem a).run.undisturbed now b =
      if b.keys.get? (r.key (Kind.objectName a)) = none then
        (.ok 1, { b with keys := b.keys.write (r.key (Kind.objectName a)) (Kind.encode a) })
      else (.ok 0, b) := by
  have hcall (swap : Swap) (b' : Backend)
      (h : (Call.swap (r.key (Kind.objectName a)) 0 (Kind.encode a)).answer b = (swap, b')) :
      (r.restoreItem a).run.undisturbed now b = (.ok (if swap.written then 1 else 0), b') := by
    show Program.undisturbed now
      (.call (.swap (r.key (Kind.objectName a)) 0 (Kind.encode a)) r.limit _) b = _
    rw [Program.undisturbed, h]
    obtain ⟨written, revision⟩ := swap
    cases written <;> rfl
  split
  · rename_i h
    refine hcall ⟨true, b.keys.nextRevision⟩ _ ?_
    rw [Call.answer, KeyStore.compareAndSwap_of_eq ((revisionOf_eq_zero_iff hb).2 h)]
  · rename_i h
    refine hcall ⟨false, b.keys.revisionOf (r.key (Kind.objectName a))⟩ _ ?_
    have hne := (revisionOf_eq_zero_iff hb).not.2 h
    rw [Call.answer, KeyStore.compareAndSwap_of_ne hne]

/-- Restoring objects adds those whose keys are free. -/
theorem undisturbed_restoreItems (as : List α) (hb : b.keys.Valid) :
    (r.restoreItems as).run.undisturbed now b =
      (.ok (r.addMissing as b.keys).1, { b with keys := (r.addMissing as b.keys).2 }) := by
  induction as generalizing b with
  | nil => rfl
  | cons a rest ih =>
    have hitem : (r.restoreItem a).run.undisturbed now b = _ := undisturbed_restoreItem hb a
    unfold restoreItems addMissing
    split
    · rename_i h
      rw [if_pos h] at hitem
      rw [undisturbed_run_bind hitem, undisturbed_run_bind (ih (hb.write _ _)), Nat.add_comm]
      rfl
    · rename_i h
      rw [if_neg h] at hitem
      rw [undisturbed_run_bind hitem, undisturbed_run_bind (ih hb)]
      simp only [Nat.zero_add]
      rfl

/-! #### What is in the store afterwards -/

/-- Keys that are there keep their entries. -/
theorem get?_addMissing_of_some {as : List α} {key : String} {e : Entry}
    (h : s.get? key = some e) : (r.addMissing as s).2.get? key = some e := by
  induction as generalizing s with
  | nil => exact h
  | cons a rest ih =>
    unfold addMissing
    split
    · rename_i habsent
      have hne : r.key (Kind.objectName a) ≠ key := by
        rintro rfl
        rw [habsent] at h
        exact nomatch h
      exact ih ((KeyStore.get?_write_of_ne hne s _).trans h)
    · exact ih h

/-- Keys of none of the objects stay free. -/
theorem get?_addMissing_of_forall_ne {as : List α} {key : String} (h : s.get? key = none)
    (hne : ∀ a ∈ as, r.key (Kind.objectName a) ≠ key) :
    (r.addMissing as s).2.get? key = none := by
  induction as generalizing s with
  | nil => exact h
  | cons a rest ih =>
    have hrest : ∀ a' ∈ rest, r.key (Kind.objectName a') ≠ key := fun a' ha' =>
      hne a' (.tail a ha')
    unfold addMissing
    split
    · exact ih ((KeyStore.get?_write_of_ne (hne a (.head rest)) s _).trans h) hrest
    · exact ih h hrest

/-- An object whose key is free is added, if no other object has its name. -/
theorem get?_addMissing_of_mem {as : List α} (hnodup : (as.map Kind.objectName).Nodup) {a : α}
    (ha : a ∈ as) (h : s.get? (r.key (Kind.objectName a)) = none) :
    ∃ e, (r.addMissing as s).2.get? (r.key (Kind.objectName a)) = some e ∧
      e.value = Kind.encode a := by
  induction as generalizing s with
  | nil => exact absurd ha List.not_mem_nil
  | cons a' rest ih =>
    obtain ⟨hnotin, hnodup⟩ := List.nodup_cons.1 hnodup
    unfold addMissing
    rcases List.mem_cons.1 ha with rfl | ha
    · rw [if_pos h]
      exact ⟨_, get?_addMissing_of_some (KeyStore.get?_write_self s _ _), rfl⟩
    · have hne : r.key (Kind.objectName a') ≠ r.key (Kind.objectName a) := fun heq =>
        hnotin (r.key_injective heq ▸ List.mem_map_of_mem ha)
      split
      · exact ih hnodup ha ((KeyStore.get?_write_of_ne hne s _).trans h)
      · exact ih hnodup ha h

theorem addMissing_fst {as : List α} (hnodup : (as.map Kind.objectName).Nodup) :
    (r.addMissing as s).1 = (r.missing s as).length := by
  induction as generalizing s with
  | nil => rfl
  | cons a rest ih =>
    obtain ⟨hnotin, hnodup⟩ := List.nodup_cons.1 hnodup
    unfold addMissing missing
    split
    · rename_i h
      have hsame : r.missing (s.write (r.key (Kind.objectName a)) (Kind.encode a)) rest =
          r.missing s rest := by
        refine List.filter_congr fun a' ha' => ?_
        have hne : r.key (Kind.objectName a) ≠ r.key (Kind.objectName a') := fun heq =>
          hnotin (r.key_injective heq ▸ List.mem_map_of_mem ha')
        rw [KeyStore.get?_write_of_ne hne]
      rw [List.filter_cons_of_pos (by rw [h]; rfl), List.length_cons]
      show (r.addMissing rest _).1 + 1 = _
      rw [ih hnodup, hsame]
      rfl
    · rename_i h
      rw [List.filter_cons_of_neg (by rwa [Option.isNone_iff_eq_none]), ih hnodup]
      rfl

/-! ### Backups and restores -/

/-- The objects that a backup finds. -/
def listed (r : Repository α) (s : KeyStore) : List α :=
  (s.list r.root).filterMap fun e => Kind.decode? e.value

/-- The snapshot that a backup takes. -/
def snapshot (r : Repository α) (now : Timestamp) (s : KeyStore) : Snapshot α where
  scope := r.scope
  kind := Kind.plural α
  takenAt := now
  items := r.listed s

/-- The backend after a backup. -/
def backedUp (r : Repository α) (now : Timestamp) (b : Backend) : Backend :=
  { b with blobs := b.blobs.put r.backupKey (r.snapshot now b.keys).encode }

@[simp] theorem keys_backedUp (r : Repository α) (now : Timestamp) (b : Backend) :
    (r.backedUp now b).keys = b.keys :=
  rfl

/-- A backup is found under the key of its repository. -/
theorem get?_backedUp (r : Repository α) (now : Timestamp) (b : Backend) :
    (r.backedUp now b).blobs.get? r.backupKey = some (r.snapshot now b.keys).encode :=
  BlobMap.get?_put_self _ _ _

theorem undisturbed_backup (r : Repository α) (now : Timestamp) (b : Backend) :
    r.backup.run.undisturbed now b = (.ok (r.listed b.keys).length, r.backedUp now b) :=
  rfl

theorem undisturbed_restore (hb : b.keys.Valid) {data : ByteArray} {snapshot : Snapshot α}
    (hdata : b.blobs.get? r.backupKey = some data)
    (hdecode : Snapshot.decode? data = some snapshot) :
    r.restore.run.undisturbed now b =
      (.ok (r.addMissing snapshot.items b.keys).1,
        { b with keys := (r.addMissing snapshot.items b.keys).2 }) := by
  have hget : (r.request "restore" (.getBlob r.backupKey)).run.undisturbed now b =
      (.ok (some data), b) := by
    show (Except.ok (b.blobs.get? r.backupKey), b) = _
    rw [hdata]
  rw [restore, undisturbed_run_bind hget]
  simp only [hdecode]
  exact undisturbed_restoreItems snapshot.items hb

/-- A snapshot that cannot be read leaves everything as it is. -/
theorem undisturbed_restore_of_none {data : ByteArray}
    (hdata : b.blobs.get? r.backupKey = some data)
    (hdecode : (Snapshot.decode? data : Option (Snapshot α)) = none) :
    r.restore.run.undisturbed now b =
      (.error (.serialization (Kind.plural α) "not a snapshot of this kind"), b) := by
  have hget : (r.request "restore" (.getBlob r.backupKey)).run.undisturbed now b =
      (.ok (some data), b) := by
    show (Except.ok (b.blobs.get? r.backupKey), b) = _
    rw [hdata]
  rw [restore, undisturbed_run_bind hget]
  simp only [hdecode]
  rfl

/-! ### Objects under their own names -/

/-- Of the objects that satisfy `q`, those that are listed are in the order of their names, if they
are stored under them. -/
theorem pairwise_filter_listed {q : α → Bool}
    (h : ∀ name a, r.Stored s name a → q a = true → Kind.objectName a = name) :
    ((r.listed s).filter q).Pairwise fun a a' => Kind.objectName a < Kind.objectName a' := by
  have hkey {e : Entry} (he : e ∈ s.list r.root) {a : α} (ha : Kind.decode? e.value = some a)
      (hq : q a = true) : e.key = r.root ++ Kind.objectName a := by
    obtain ⟨hget, hunder⟩ := KeyStore.mem_list.1 he
    obtain ⟨name, hname⟩ := KeyStore.isUnder_iff.1 hunder
    rw [h name a ⟨e, by rw [key, ← hname, hget], ha⟩ hq, hname]
  unfold listed
  rw [List.pairwise_filter, List.pairwise_filterMap]
  refine (s.pairwise_list r.root).imp_of_mem fun he he' hlt a ha a' ha' hq hq' => ?_
  rw [hkey he ha hq, hkey he' ha' hq'] at hlt
  exact KeyStore.append_lt_append_iff.1 hlt

/-- Objects that are stored under their own names have different names. -/
theorem nodup_listed (h : ∀ name a, r.Stored s name a → Kind.objectName a = name) :
    ((r.listed s).map Kind.objectName).Nodup := by
  have hordered : ((r.listed s).filter fun _ => true).Pairwise fun a a' =>
      Kind.objectName a < Kind.objectName a' :=
    pairwise_filter_listed fun name a ha _ => h name a ha
  rw [List.filter_true] at hordered
  rw [List.Nodup, List.pairwise_map]
  refine hordered.imp fun {a a'} hlt heq => ?_
  rw [heq] at hlt
  exact String.lt_irrefl _ hlt

/-! ### Clean repositories -/

/-- An entry of a clean listing holds an object under the key of its name. -/
theorem IsClean.exists_of_mem_list (h : r.IsClean s) {e : Entry} (he : e ∈ s.list r.root) :
    ∃ a : α, Kind.decode? e.value = some a ∧ e.key = r.key (Kind.objectName a) := by
  obtain ⟨hget, hunder⟩ := KeyStore.mem_list.1 he
  obtain ⟨name, hkey⟩ := KeyStore.isUnder_iff.1 hunder
  obtain ⟨a, ha, rfl⟩ := h name e (by rw [key, ← hkey, hget])
  exact ⟨a, ha, hkey⟩

/-- The objects of a clean repository have different names. -/
theorem IsClean.nodup_listed (h : r.IsClean s) : ((r.listed s).map Kind.objectName).Nodup :=
  Repository.nodup_listed fun _ _ ha => h.objectName_eq ha

theorem IsClean.nodup_map_reread [Kind.Lawful α] (h : r.IsClean s) :
    (((r.listed s).map Kind.Lawful.reread).map Kind.objectName).Nodup := by
  have hmap : ((r.listed s).map Kind.Lawful.reread).map Kind.objectName =
      (r.listed s).map Kind.objectName := by
    rw [List.map_map]
    exact List.map_congr_left fun a _ => Kind.Lawful.objectName_reread a
  rw [hmap]
  exact h.nodup_listed

/-- The number of objects whose keys are free in another store is that of their entries. -/
theorem IsClean.length_missing [Kind.Lawful α] (h : r.IsClean s) (s' : KeyStore) :
    (r.missing s' ((r.listed s).map Kind.Lawful.reread)).length =
      ((s.list r.root).filter fun e => (s'.get? e.key).isNone).length := by
  have hentries : ∀ e ∈ s.list r.root,
      ∃ a : α, Kind.decode? e.value = some a ∧ e.key = r.key (Kind.objectName a) :=
    fun e he => h.exists_of_mem_list he
  unfold listed
  generalize s.list r.root = entries at hentries
  induction entries with
  | nil => rfl
  | cons e rest ih =>
    obtain ⟨a, ha, hkey⟩ := hentries e (.head rest)
    have hrest := ih fun e' he' => hentries e' (.tail e he')
    have hname : r.key (Kind.objectName (Kind.Lawful.reread a)) = e.key := by
      rw [Kind.Lawful.objectName_reread, hkey]
    simp only [List.filterMap_cons, ha, List.map_cons]
    unfold missing at hrest ⊢
    rw [List.filter_cons, List.filter_cons, hname]
    split
    · rw [List.length_cons, List.length_cons, hrest]
    · exact hrest

/-! ### What is recovered -/

/-- The backend after a backup that nothing disturbs and the calls that follow it. -/
def afterBackup (r : Repository α) (now : Timestamp) (calls : List Call) (b : Backend) : Backend :=
  (r.backedUp now b).afterCalls calls

/-- A backup succeeds, and after some calls a restore adds exactly those objects of then that are
missing, as they were, and leaves all other keys as they are. -/
structure Recovers (r : Repository α) (now : Timestamp) (calls : List Call) (b : Backend) :
    Prop where
  backup : ∃ count, (r.backup.run.undisturbed now b).1 = .ok count
  restore : (r.restore.run.undisturbed now (r.afterBackup now calls b)).1 =
    .ok ((b.keys.list r.root).filter fun e =>
      ((r.afterBackup now calls b).keys.get? e.key).isNone).length
  restored : ∀ name a, r.Stored b.keys name a →
    (r.afterBackup now calls b).keys.get? (r.key name) = none →
    r.Stored (r.restore.run.undisturbed now (r.afterBackup now calls b)).2.keys name a
  kept : ∀ key e, (r.afterBackup now calls b).keys.get? key = some e →
    (r.restore.run.undisturbed now (r.afterBackup now calls b)).2.keys.get? key = some e
  only : ∀ key, (r.afterBackup now calls b).keys.get? key = none →
    (∀ name a, r.Stored b.keys name a → key ≠ r.key name) →
    (r.restore.run.undisturbed now (r.afterBackup now calls b)).2.keys.get? key = none

variable {calls : List Call}

/-- The snapshot that a restore finds. -/
theorem get?_afterBackup (hcalls : ∀ data, .putBlob r.backupKey data ∉ calls) :
    (r.afterBackup now calls b).blobs.get? r.backupKey =
      some (r.snapshot now b.keys).encode := by
  rw [afterBackup, Backend.blobs_afterCalls hcalls, get?_backedUp]

theorem valid_afterBackup (hb : b.keys.Valid) : (r.afterBackup now calls b).keys.Valid :=
  Backend.valid_afterCalls (b := r.backedUp now b) hb calls

variable [Kind.Lawful α]

theorem storable_of_mem_listed {a : α} (ha : a ∈ r.listed s) : Kind.Storable a := by
  obtain ⟨name, hstored⟩ := mem_listed.1 ha
  exact hstored.storable

/-- A restore of objects that fit adds them as they are read from the snapshot. -/
theorem undisturbed_restore_of_fits (hb : b.keys.Valid) (hnow : now.IsMoment)
    (hcalls : ∀ data, .putBlob r.backupKey data ∉ calls)
    (hfits : ∀ a ∈ r.listed b.keys, Kind.FitsSnapshot a) :
    r.restore.run.undisturbed now (r.afterBackup now calls b) =
      (.ok (r.addMissing ((r.listed b.keys).map Kind.Lawful.reread)
          (r.afterBackup now calls b).keys).1,
        { r.afterBackup now calls b with
          keys := (r.addMissing ((r.listed b.keys).map Kind.Lawful.reread)
            (r.afterBackup now calls b).keys).2 }) := by
  have hdecode := Snapshot.decode?_encode (s := r.snapshot now b.keys) hnow
    (fun a ha => storable_of_mem_listed ha) hfits
  exact undisturbed_restore (valid_afterBackup hb) (get?_afterBackup hcalls) hdecode

/-- A single object that does not fit makes the restore fail, and nothing is added. -/
theorem undisturbed_restore_of_not_fits (hnow : now.IsMoment)
    (hcalls : ∀ data, .putBlob r.backupKey data ∉ calls) {a : α} (ha : a ∈ r.listed b.keys)
    (hfits : ¬Kind.FitsSnapshot a) :
    r.restore.run.undisturbed now (r.afterBackup now calls b) =
      (.error (.serialization (Kind.plural α) "not a snapshot of this kind"),
        r.afterBackup now calls b) := by
  have hdecode := Snapshot.decode?_encode_eq_none (s := r.snapshot now b.keys) hnow
    (fun a ha => storable_of_mem_listed ha) ha hfits
  exact undisturbed_restore_of_none (get?_afterBackup hcalls) hdecode

/-- What is restored of an object whose key is free is the object read twice more. -/
theorem stored_addMissing (hclean : r.IsClean b.keys) {name : String} {a : α}
    (ha : r.Stored b.keys name a) (hfree : s.get? (r.key name) = none) :
    r.Stored (r.addMissing ((r.listed b.keys).map Kind.Lawful.reread) s).2 name
      (Kind.Lawful.reread (Kind.Lawful.reread a)) := by
  have hname : Kind.objectName (Kind.Lawful.reread a) = name :=
    (Kind.Lawful.objectName_reread a).trans (hclean.objectName_eq ha)
  have hmem : Kind.Lawful.reread a ∈ (r.listed b.keys).map Kind.Lawful.reread :=
    List.mem_map_of_mem (mem_listed.2 ⟨name, ha⟩)
  obtain ⟨e, he, hvalue⟩ := get?_addMissing_of_mem hclean.nodup_map_reread hmem
    (by rw [hname, hfree])
  refine ⟨e, hname ▸ he, ?_⟩
  rw [hvalue]
  exact ha.storable.reread.decode?_encode

/-- What was backed up is recovered exactly if every object fits into the snapshot, and every one
that is missing afterwards is the same after it was read twice more. -/
theorem recovers_iff_fits (hclean : r.IsClean b.keys) (hb : b.keys.Valid) (hnow : now.IsMoment)
    (hcalls : ∀ data, .putBlob r.backupKey data ∉ calls) :
    r.Recovers now calls b ↔ ∀ name a, r.Stored b.keys name a → Kind.FitsSnapshot a ∧
      ((r.afterBackup now calls b).keys.get? (r.key name) = none →
        Kind.Lawful.reread (Kind.Lawful.reread a) = a) := by
  constructor
  · intro h
    have hfits : ∀ a ∈ r.listed b.keys, Kind.FitsSnapshot a := by
      intro a ha
      -- A snapshot with an object that does not fit is not read at all.
      by_contra hfit
      have hrestore := h.restore
      rw [undisturbed_restore_of_not_fits hnow hcalls ha hfit] at hrestore
      exact nomatch hrestore
    intro name a ha
    refine ⟨hfits a (mem_listed.2 ⟨name, ha⟩), fun hfree => ?_⟩
    have hrestored := h.restored name a ha hfree
    rw [undisturbed_restore_of_fits hb hnow hcalls hfits] at hrestored
    exact (stored_addMissing hclean ha hfree).eq hrestored
  · intro h
    have hfits : ∀ a ∈ r.listed b.keys, Kind.FitsSnapshot a := by
      intro a ha
      obtain ⟨name, ha⟩ := mem_listed.1 ha
      exact (h name a ha).1
    have hrestore := undisturbed_restore_of_fits hb hnow hcalls hfits
    refine ⟨⟨_, congrArg Prod.fst (undisturbed_backup r now b)⟩, ?_, ?_, ?_, ?_⟩
    · rw [hrestore, addMissing_fst hclean.nodup_map_reread, hclean.length_missing]
    · intro name a ha hfree
      have hrestored := stored_addMissing hclean ha hfree
      rw [(h name a ha).2 hfree] at hrestored
      rw [hrestore]
      exact hrestored
    · intro key e he
      rw [hrestore]
      exact get?_addMissing_of_some he
    · intro key hfree hne
      rw [hrestore]
      refine get?_addMissing_of_forall_ne hfree fun a ha heq => ?_
      obtain ⟨a, hlisted, rfl⟩ := List.mem_map.1 ha
      obtain ⟨name, ha⟩ := mem_listed.1 hlisted
      rw [Kind.Lawful.objectName_reread, hclean.objectName_eq ha] at heq
      exact hne name a ha heq.symm

end Repository

end Workplane
