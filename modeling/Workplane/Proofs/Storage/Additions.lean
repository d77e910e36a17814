import Workplane.Proofs.Deployments.LostUpdate
import Workplane.Proofs.Program.Endings
import Workplane.Proofs.Storage.Restore

/-!
# What a restore may change

A restore adds the objects of a snapshot one after another, and a call without an answer cuts it off
before any of them.  Whatever the snapshot holds, names twice or names that are taken, what was
changed until then is what the objects before that one add (`Repository.HasAdded`): all entries stay
as they are, and of the objects with a free name the first is added (`Repository.Adds`).

What was added is not missing any more, so adding the front part of some objects and then all of
them is the same as adding them once (`Repository.addMissing_addMissing_front`).  That is why a
restore can be repeated after it was cut off, and why it does nothing when it is repeated after a
success (`Repository.restore_onlyAdds`).
-/

namespace Workplane

theorem Entry.length_insert {e : Entry} {entries : List Entry}
    (h : entries.find? (fun f => f.key == e.key) = none) :
    (insert e entries).length = entries.length + 1 := by
  fun_induction insert e entries with
  | case1 => rfl
  | case2 => rfl
  | case3 f rest _ heq => simp [heq] at h
  | case4 f rest _ hne ih =>
    have hrest : rest.find? (fun g => g.key == e.key) = none := by
      simpa [List.find?_cons, Ne.symm hne] using h
    rw [List.length_cons, ih hrest, List.length_cons]

namespace Repository

variable {α : Type} [Kind α] {r : Repository α} {s : KeyStore} {b b' : Backend} {as : List α}

/-! ### Adding objects -/

/-- The backend after the objects with free keys were added. -/
def added (r : Repository α) (as : List α) (b : Backend) : Backend :=
  { b with keys := (r.addMissing as b.keys).2 }

/-- Items are added one after another, and the counts add up. -/
theorem addMissing_append (front rest : List α) (s : KeyStore) :
    r.addMissing (front ++ rest) s =
      ((r.addMissing front s).1 + (r.addMissing rest (r.addMissing front s).2).1,
        (r.addMissing rest (r.addMissing front s).2).2) := by
  induction front generalizing s with
  | nil => simp [addMissing]
  | cons a front ih =>
    rw [List.cons_append, addMissing, addMissing]
    split
    · simp only [ih]
      congr 1
      omega
    · exact ih s

theorem added_append (front rest : List α) (b : Backend) :
    r.added (front ++ rest) b = r.added rest (r.added front b) := by
  unfold added
  rw [addMissing_append]

/-- Adding keeps the keys valid. -/
theorem valid_added (hb : b.keys.Valid) (as : List α) : (r.added as b).keys.Valid := by
  suffices h : ∀ s : KeyStore, s.Valid → (r.addMissing as s).2.Valid from h b.keys hb
  induction as with
  | nil => exact fun s hs => hs
  | cons a rest ih =>
    intro s hs
    rw [addMissing]
    split
    · exact ih _ (hs.write _ _)
    · exact ih s hs

/-- Every object that is added makes one more key. -/
theorem length_addMissing (as : List α) (s : KeyStore) :
    (r.addMissing as s).2.entries.length = s.entries.length + (r.addMissing as s).1 := by
  induction as generalizing s with
  | nil => rfl
  | cons a rest ih =>
    rw [addMissing]
    split
    · rename_i h
      have hlength : (s.write (r.key (Kind.objectName a)) (Kind.encode a)).entries.length =
          s.entries.length + 1 := Entry.length_insert h
      simp only [ih, hlength]
      omega
    · exact ih s

/-- A key holds what it held, or else the first object with that key. -/
theorem content_added (as : List α) (b : Backend) (key : String) :
    (r.added as b).content key = (b.content key).or
      ((as.find? fun a => r.key (Kind.objectName a) == key).map Kind.encode) := by
  -- The store changes from object to object, so the induction is for all stores.
  suffices h : ∀ s : KeyStore, ((r.addMissing as s).2.get? key).map Entry.value =
      ((s.get? key).map Entry.value).or
        ((as.find? fun a => r.key (Kind.objectName a) == key).map Kind.encode) from h b.keys
  induction as with
  | nil => simp [addMissing]
  | cons a rest ih =>
    intro s
    rw [addMissing, List.find?_cons]
    rcases Decidable.em (r.key (Kind.objectName a) = key) with rfl | hne
    · rw [beq_self_eq_true]
      split
      · rename_i h
        simp only [ih, KeyStore.get?_write_self, h]
        rfl
      · rename_i h
        obtain ⟨e, he⟩ := Option.ne_none_iff_exists'.1 h
        rw [ih, he]
        rfl
    · rw [beq_eq_false_iff_ne.2 hne]
      split
      · simp only [ih, KeyStore.get?_write_of_ne hne]
      · exact ih s

/-! ### Adding objects again -/

/-- After it was added, an item is there. -/
theorem isSome_get?_addMissing {a : α} (ha : a ∈ as) :
    ((r.addMissing as s).2.get? (r.key (Kind.objectName a))).isSome = true := by
  induction as generalizing s with
  | nil => exact absurd ha List.not_mem_nil
  | cons a' rest ih =>
    rw [addMissing]
    rcases List.mem_cons.1 ha with rfl | ha
    · split
      · rw [get?_addMissing_of_some (KeyStore.get?_write_self s _ _)]
        rfl
      · rename_i h
        obtain ⟨e, he⟩ := Option.ne_none_iff_exists'.1 h
        rw [get?_addMissing_of_some he]
        rfl
    · split
      · exact ih ha
      · exact ih ha

/-- Objects that are all there are not added. -/
theorem addMissing_of_forall_isSome
    (h : ∀ a ∈ as, (s.get? (r.key (Kind.objectName a))).isSome = true) :
    r.addMissing as s = (0, s) := by
  induction as with
  | nil => rfl
  | cons a rest ih =>
    have ha : s.get? (r.key (Kind.objectName a)) ≠ none := by
      rw [← Option.isSome_iff_ne_none]
      exact h a (.head rest)
    rw [addMissing, if_neg ha]
    exact ih fun a' ha' => h a' (.tail a ha')

/-- After the front part of some objects was added, all of them are added as the others are. -/
theorem addMissing_addMissing_front (front rest : List α) (s : KeyStore) :
    r.addMissing (front ++ rest) (r.addMissing front s).2 =
      r.addMissing rest (r.addMissing front s).2 := by
  rw [addMissing_append, addMissing_of_forall_isSome fun a ha => isSome_get?_addMissing ha,
    Nat.zero_add]

/-- What is added again after a front part of it is as if it was added once. -/
theorem added_added_front (front rest : List α) (b : Backend) :
    r.added (front ++ rest) (r.added front b) = r.added (front ++ rest) b := by
  rw [added_append front rest b, added, added, added, addMissing_addMissing_front]

/-- Objects that were added are not added again. -/
theorem addMissing_added_of_subset {items : List α} (h : as ⊆ items) (b : Backend) :
    r.addMissing as (r.added items b).keys = (0, (r.added items b).keys) :=
  addMissing_of_forall_isSome fun _ ha => isSome_get?_addMissing (h ha)

/-- What has been added is not added again. -/
theorem added_added_of_subset {items : List α} (h : as ⊆ items) (b : Backend) :
    r.added as (r.added items b) = r.added items b := by
  have hidle := addMissing_added_of_subset (r := r) h b
  rw [added, hidle]

/-! ### What is added -/

/-- Nothing has changed but that objects were added: the first one of each name whose key was
free. -/
structure Adds (r : Repository α) (as : List α) (b b' : Backend) : Prop where
  /-- Every entry stays, with its value and its revision. -/
  kept : ∀ key e, b.keys.get? key = some e → b'.keys.get? key = some e
  added : ∀ name, b.keys.get? (r.key name) = none →
    b'.content (r.key name) = (as.find? fun a => Kind.objectName a == name).map Kind.encode
  elsewhere : ∀ key, KeyStore.isUnder r.root key = false → b'.keys.get? key = b.keys.get? key
  blobs : b'.blobs = b.blobs

theorem adds_added (as : List α) (b : Backend) : r.Adds as b (r.added as b) := by
  refine ⟨fun key e he => get?_addMissing_of_some he, fun name hfree => ?_, fun key hkey => ?_, rfl⟩
  · have hname : (fun a : α => r.key (Kind.objectName a) == r.key name) =
        fun a => Kind.objectName a == name := by
      funext a
      rw [Bool.eq_iff_iff, beq_iff_eq, beq_iff_eq]
      exact ⟨fun h => r.key_injective h, fun h => congrArg r.key h⟩
    rw [content_added, Backend.content, hfree, hname]
    rfl
  · have hne : ∀ a ∈ as, r.key (Kind.objectName a) ≠ key := by
      rintro a - rfl
      have hunder : KeyStore.isUnder r.root (r.key (Kind.objectName a)) = true :=
        KeyStore.isUnder_iff.2 ⟨_, rfl⟩
      exact Bool.false_ne_true (hkey.symm.trans hunder)
    rcases h : b.keys.get? key with _ | e
    · exact get?_addMissing_of_forall_ne h hne
    · exact get?_addMissing_of_some h

/-! ### Restores that may be cut off -/

/-- The objects that are saved for a repository, none if there is no snapshot; `none` if the
snapshot cannot be read. -/
def saved? (r : Repository α) (b : Backend) : Option (List α) :=
  match b.blobs.get? r.backupKey with
  | some data => (Snapshot.decode? data).map Snapshot.items
  | none => some []

/-- The front part of what is saved was added. -/
def HasAdded (r : Repository α) (b b' : Backend) : Prop :=
  ∃ front rest, (r.saved? b).getD [] = front ++ rest ∧ b' = r.added front b

theorem hasAdded_refl (r : Repository α) (b : Backend) : r.HasAdded b b :=
  ⟨[], _, rfl, rfl⟩

/-- A program ended with an error since a call had no answer. -/
def CutOff (e : StoreError) (past : List Move) : Prop :=
  e.IsOutage ∧ ∃ m ∈ past, m.IsLost

variable {past : List Move} {inv : List Move → Backend → Prop}

/-- A create call writes exactly if its key is free, and then it adds its object. -/
theorem answer_create (hb : b.keys.Valid) (a : α) :
    ((Call.swap (r.key (Kind.objectName a)) 0 (Kind.encode a)).answer b).2 = r.added [a] b ∧
      (r.addMissing [a] b.keys).1 =
        if ((Call.swap (r.key (Kind.objectName a)) 0 (Kind.encode a)).answer b).1.written then 1
        else 0 := by
  by_cases hfree : b.keys.get? (r.key (Kind.objectName a)) = none
  · have hswap := KeyStore.compareAndSwap_of_eq ((revisionOf_eq_zero_iff hb).2 hfree)
      (Kind.encode a)
    simp [Call.answer, hswap, added, addMissing, hfree]
  · have hswap := KeyStore.compareAndSwap_of_ne ((revisionOf_eq_zero_iff hb).not.2 hfree)
      (Kind.encode a)
    simp [Call.answer, hswap, added, addMissing, hfree]

/-- An item is added unless it is there, or the restoring is cut off and nothing has changed. -/
theorem ensures_restoreItem (hb : b.keys.Valid) (hinv : inv past b) (a : α) :
    Ensures (.alone inv)
      (fun count s => s.2 = r.added [a] b ∧ count = (r.addMissing [a] b.keys).1)
      (fun e s => CutOff e s.1 ∧ s.2 = b) (r.restoreItem a) (past, b) := by
  obtain ⟨hadded, hcount⟩ := answer_create (r := r) hb a
  refine ensures_tryCatch.2 (ensures_bind.2 (ensures_create hinv ?_ ?_ ?_))
  · rintro swap took _ ⟨htrue, rfl⟩ hwritten
    obtain rfl := htrue swap rfl
    rw [if_pos hwritten] at hcount
    exact ensures_pure.2 ⟨hadded, hcount.symm⟩
  · rintro swap took _ ⟨htrue, rfl⟩ hrefused
    obtain rfl := htrue swap rfl
    rw [if_neg (Bool.eq_false_iff.1 hrefused)] at hcount
    exact ensures_pure.2 ⟨hadded, hcount.symm⟩
  · rintro e reply s houtage hlost hs
    obtain rfl := Environment.eq_of_lost hs hlost
    have hlast : Move.IsLost (.call (.swap (r.key (Kind.objectName a)) 0 (Kind.encode a)) reply) :=
      hlost
    have hcut : CutOff e (past ++ [_]) := ⟨houtage, _, List.mem_append_right _ (.head []), hlast⟩
    cases e with
    | timeout | backend => exact ensures_throw.2 ⟨hcut, rfl⟩
    | alreadyExists | notFound | conflict | serialization => exact houtage.elim

/-- The items of a front part are added, all of them unless the restoring is cut off. -/
theorem ensures_restoreItems (hb : b.keys.Valid) (items : List α)
    (hinv : ∀ past front rest, items = front ++ rest → inv past (r.added front b)) :
    Ensures (.alone inv)
      (fun count s => s.2 = r.added items b ∧ count = (r.addMissing items b.keys).1)
      (fun e s => CutOff e s.1 ∧ ∃ front rest, items = front ++ rest ∧ s.2 = r.added front b)
      (r.restoreItems items) (past, b) := by
  induction items generalizing b past with
  | nil => exact ensures_pure.2 ⟨rfl, rfl⟩
  | cons a rest ih =>
    have hitem := ensures_restoreItem (r := r) hb (hinv past [] (a :: rest) rfl) a
    refine ensures_bind.2 (hitem.mono ?_ ?_)
    · rintro first ⟨past', b'⟩ ⟨hb', rfl⟩
      obtain rfl : b' = r.added [a] b := hb'
      -- What the rest adds comes after `a`, in a store that has it already.
      have hrest : ∀ past front rest', rest = front ++ rest' →
          inv past (r.added front (r.added [a] b)) := by
        intro past front rest' hrest
        rw [← added_append]
        exact hinv past (a :: front) rest' (congrArg (a :: ·) hrest)
      refine ensures_bind.2 (Ensures.mono (ih (valid_added hb [a]) hrest) ?_ ?_)
      · rintro others s ⟨hs, rfl⟩
        refine ensures_pure.2 ⟨hs.trans (added_append [a] rest b).symm, ?_⟩
        exact congrArg Prod.fst (addMissing_append [a] rest b.keys).symm
      · rintro e s ⟨hcut, front, rest', rfl, hs⟩
        exact ⟨hcut, a :: front, rest', rfl, hs.trans (added_append [a] front b).symm⟩
    · rintro e s ⟨hcut, hs⟩
      exact ⟨hcut, [], a :: rest, rfl, hs⟩

/-- A restore adds what is saved, or is cut off before some object. -/
theorem ensures_restore (hb : b.keys.Valid) :
    Ensures (.alone fun _ => r.HasAdded b)
      (fun count s => ∃ items, r.saved? b = some items ∧ s.2 = r.added items b ∧
        count = (r.addMissing items b.keys).1)
      (fun e s => r.HasAdded b s.2 ∧ (CutOff e s.1 ∨ r.saved? b = none)) r.restore ([], b) := by
  refine ensures_bind.2 (ensures_request (hasAdded_refl r b) ?_ ?_)
  · rintro answer took _ ⟨htrue, rfl⟩
    obtain rfl : answer = b.blobs.get? r.backupKey := htrue _ rfl
    show Ensures _ _ _ _ (_, b)
    cases hdata : b.blobs.get? r.backupKey with
    | none =>
      have hsaved : r.saved? b = some [] := by rw [saved?, hdata]
      exact ensures_pure.2 ⟨[], hsaved, rfl, rfl⟩
    | some data =>
      cases hdecode : (Snapshot.decode? data : Option (Snapshot α)) with
      | none =>
        have hsaved : r.saved? b = none := by simp only [saved?, hdata, hdecode, Option.map_none]
        simp only [hdecode]
        exact ensures_throw.2 ⟨hasAdded_refl r b, Or.inr hsaved⟩
      | some snapshot =>
        have hsaved : r.saved? b = some snapshot.items := by
          simp only [saved?, hdata, hdecode, Option.map_some]
        simp only [hdecode]
        refine (ensures_restoreItems hb snapshot.items ?_).mono ?_ ?_
        · rintro past front rest hitems
          exact ⟨front, rest, by rw [hsaved, Option.getD_some, hitems], rfl⟩
        · rintro count s ⟨hs, hcount⟩
          exact ⟨snapshot.items, hsaved, hs, hcount⟩
        · rintro e s ⟨hcut, front, rest, hitems, hs⟩
          exact ⟨⟨front, rest, by rw [hsaved, Option.getD_some, hitems], hs⟩, Or.inl hcut⟩
  · rintro e reply s houtage hlost hs
    obtain rfl := Environment.eq_of_lost hs hlost
    have hlast : Move.IsLost (.call (.getBlob r.backupKey) reply) := hlost
    exact ⟨hasAdded_refl r b, Or.inl ⟨houtage, _, .head [], hlast⟩⟩

/-! ### Where a restore can be cut off -/

theorem undisturbed_getBlob (r : Repository α) (operation key : String) (now : Timestamp)
    (b : Backend) :
    (r.request operation (.getBlob key)).run.undisturbed now b = (.ok (b.blobs.get? key), b) :=
  rfl

/-- A restore that nothing disturbs adds what is saved. -/
theorem undisturbed_restore_of_saved {now : Timestamp} (hb : b.keys.Valid) {items : List α}
    (h : r.saved? b = some items) :
    r.restore.run.undisturbed now b = (.ok (r.addMissing items b.keys).1, r.added items b) := by
  unfold saved? at h
  split at h
  · rename_i data hdata
    obtain ⟨snapshot, hdecode, rfl⟩ := Option.map_eq_some_iff.1 h
    exact undisturbed_restore hb hdata hdecode
  · rename_i hdata
    obtain rfl := Option.some.inj h
    have hget := undisturbed_getBlob r "restore" r.backupKey now b
    rw [hdata] at hget
    rw [restore, undisturbed_run_bind hget]
    rfl

theorem undisturbed_restoreItem_eq_added {now : Timestamp} (hb : b.keys.Valid) (a : α) :
    (r.restoreItem a).run.undisturbed now b =
      (.ok (r.addMissing [a] b.keys).1, r.added [a] b) := by
  rw [undisturbed_restoreItem hb, added, addMissing]
  split <;> rfl

/-- The restoring can be cut off before any of the items. -/
theorem exists_cutOff_restoreItems (hb : b.keys.Valid) (front : List α) (a : α) (rest : List α) :
    ∃ past e, (r.restoreItems (front ++ a :: rest)).run.Alone b past (r.added front b)
      (.done (.error e)) := by
  induction front generalizing b with
  | nil =>
    have hfails : (r.restoreItem a).run.Alone b _ b
        (.done (.error (.backend (Kind.plural α) []))) :=
      Program.Alone.start.move (.call (.swap (r.key (Kind.objectName a)) 0 (Kind.encode a))
        ⟨.failed [], 0⟩) _ (.call _ _ _ _) nofun
    exact ⟨_, _, hfails.bind _⟩
  | cons a' front ih =>
    obtain ⟨past, hitem⟩ := Program.exists_alone_undisturbed (r.restoreItem a').run
      ⟨1970, 1, 1, 0, 0, 0, 0⟩ b
    rw [undisturbed_restoreItem_eq_added hb] at hitem
    obtain ⟨later, e, hothers⟩ := ih (valid_added (r := r) hb [a'])
    have hadded : r.added (a' :: front) b = r.added front (r.added [a'] b) :=
      added_append [a'] front b
    rw [hadded]
    exact ⟨past ++ later, e, (hitem.bind _).trans (hothers.bind _)⟩

/-- A restore can be cut off before each of the saved objects. -/
theorem exists_cutOff (hb : b.keys.Valid) {front rest : List α} {a : α}
    (h : r.saved? b = some (front ++ a :: rest)) :
    ∃ past e, r.restore.run.Alone b past (r.added front b) (.done (.error e)) := by
  unfold saved? at h
  split at h
  · rename_i data hdata
    obtain ⟨snapshot, hdecode, hitems⟩ := Option.map_eq_some_iff.1 h
    obtain ⟨past, hget⟩ := Program.exists_alone_undisturbed
      (r.request "restore" (.getBlob r.backupKey)).run ⟨1970, 1, 1, 0, 0, 0, 0⟩ b
    rw [undisturbed_getBlob, hdata] at hget
    obtain ⟨later, e, hrest⟩ := exists_cutOff_restoreItems (r := r) hb front a rest
    refine ⟨past ++ later, e, (hget.bind _).trans ?_⟩
    simp only [Program.done_bind, ExceptT.bindCont, hdecode, hitems]
    exact hrest
  · exact absurd (Option.some.inj h) (by simp)

/-! ### Restores and their repetitions -/

/-- What a restore of `b` has done when it has made the moves `past` and come to `b'`, and `q` is
left of it. -/
structure OnlyAdds (r : Repository α) (b : Backend) (past : List Move) (b' : Backend)
    (q : Program (Except StoreError Nat)) : Prop where
  /-- A snapshot that cannot be read has no effect, and the restore does not succeed. -/
  unreadable : r.saved? b = none → b' = b ∧ ∀ count, q ≠ .done (.ok count)
  /-- The front part of the saved objects was added; if the restore has succeeded, all of them, and
  it tells how many keys are new. -/
  front : ∀ items, r.saved? b = some items → ∃ front rest, items = front ++ rest ∧
    r.Adds front b b' ∧ ∀ count, q = .done (.ok count) →
      rest = [] ∧ b'.keys.entries.length = b.keys.entries.length + count
  /-- A restore fails only if a call had no answer, or the snapshot cannot be read. -/
  failed : ∀ e, q = .done (.error e) → CutOff e past ∨ r.saved? b = none
  /-- A restore that nothing disturbs adds the rest, however far this one has come, and tells how
  many keys are new; then everything is as a single restore would have left it. -/
  again : ∀ items now, r.saved? b = some items → ∃ count b'',
    r.restore.run.undisturbed now b' = (.ok count, b'') ∧
    b''.keys.entries.length = b'.keys.entries.length + count ∧
    (r.restore.run.undisturbed now b).2 = b'' ∧ r.Adds items b b''
  /-- After a success nothing is missing: another restore adds nothing and says so, and it changes
  nothing even if it is cut off. -/
  idle : ∀ count, q = .done (.ok count) →
    (∀ now, r.restore.run.undisturbed now b' = (.ok 0, b')) ∧
    ∀ past b'' q', r.restore.run.Alone b' past b'' q' → b'' = b'

variable {q : Program (Except StoreError Nat)}

/-- How far a restore has come: the front part of what is saved was added. -/
theorem exists_front_of_alone (hb : b.keys.Valid) (run : r.restore.run.Alone b past b' q) :
    ∃ front rest, (r.saved? b).getD [] = front ++ rest ∧ b' = r.added front b ∧
      (∀ count, q = .done (.ok count) →
        r.saved? b = some front ∧ rest = [] ∧ count = (r.addMissing front b.keys).1) ∧
      ∀ e, q = .done (.error e) → CutOff e past ∨ r.saved? b = none := by
  have h := run.holds_alone (ensures_restore hb)
  cases q with
  | call c limit next =>
    obtain ⟨front, rest, hitems, hb'⟩ := h.1
    exact ⟨front, rest, hitems, hb', nofun, nofun⟩
  | clock next =>
    obtain ⟨front, rest, hitems, hb'⟩ := h.1
    exact ⟨front, rest, hitems, hb', nofun, nofun⟩
  | done result =>
    cases result with
    | error e =>
      obtain ⟨⟨front, rest, hitems, hb'⟩, hcause⟩ := h
      refine ⟨front, rest, hitems, hb', nofun, fun e' he => ?_⟩
      obtain rfl := Except.error.inj (Program.done.inj he)
      exact hcause
    | ok count =>
      obtain ⟨items, hsaved, hb', hcount⟩ := h
      refine ⟨items, [], by rw [hsaved, Option.getD_some, List.append_nil], hb', ?_, nofun⟩
      intro count' hcount'
      obtain rfl := Except.ok.inj (Program.done.inj hcount')
      exact ⟨hsaved, rfl, hcount⟩

/-- A restore only adds, whatever is saved and whatever calls have no answer. -/
theorem restore_onlyAdds (hb : b.keys.Valid) (run : r.restore.run.Alone b past b' q) :
    r.OnlyAdds b past b' q := by
  obtain ⟨front, rest, hitems, rfl, hok, herror⟩ := exists_front_of_alone hb run
  refine ⟨fun hsaved => ?_, fun items hsaved => ?_, herror, fun items now hsaved => ?_,
    fun count hq => ?_⟩
  · rw [hsaved, Option.getD_none] at hitems
    obtain ⟨rfl, rfl⟩ := List.append_eq_nil_iff.1 hitems.symm
    refine ⟨rfl, fun count hq => ?_⟩
    obtain ⟨hsome, -⟩ := hok count hq
    rw [hsaved] at hsome
    exact nomatch hsome
  · rw [hsaved, Option.getD_some] at hitems
    refine ⟨front, rest, hitems, adds_added front b, fun count hq => ?_⟩
    obtain ⟨-, hrest, rfl⟩ := hok count hq
    exact ⟨hrest, length_addMissing front b.keys⟩
  · rw [hsaved, Option.getD_some] at hitems
    subst hitems
    refine ⟨_, _, undisturbed_restore_of_saved (valid_added hb front) hsaved,
      length_addMissing _ _, ?_, ?_⟩
    · rw [undisturbed_restore_of_saved hb hsaved, added_added_front]
    · rw [added_added_front]
      exact adds_added _ b
  · obtain ⟨hsaved, -, -⟩ := hok count hq
    have hvalid := valid_added (r := r) hb front
    have hsaved' : r.saved? (r.added front b) = some front := hsaved
    refine ⟨fun now => ?_, fun past' b'' q' run' => ?_⟩
    · rw [undisturbed_restore_of_saved hvalid hsaved',
        addMissing_added_of_subset (List.Subset.refl front),
        added_added_of_subset (List.Subset.refl front)]
    · obtain ⟨front', rest', hitems', rfl, -⟩ := exists_front_of_alone hvalid run'
      rw [hsaved', Option.getD_some] at hitems'
      exact added_added_of_subset (hitems' ▸ List.subset_append_left front' rest') b

/-- A snapshot with a name that is taken, and another one twice. -/
def tokens : Snapshot Secret :=
  ⟨"ws", "secrets", ⟨1970, 1, 1, 0, 0, 0, 0⟩, [⟨"a", "1"⟩, ⟨"b", "2"⟩, ⟨"b", "3"⟩]⟩

/-- A restore that adds the second secret and is cut off before the third. -/
theorem restore_onlyAdds_tokens :
    let r : Repository Secret := { scope := "ws" }
    let keys := KeyStore.empty.write (r.key "a") "taken".toUTF8
    let b : Backend := ⟨keys, BlobMap.empty.put r.backupKey tokens.encode⟩
    let second : Secret := ⟨"b", "2"⟩
    let b' : Backend := { b with keys := keys.write (r.key "b") (Kind.encode second) }
    b.keys.Valid ∧ ∃ past e, r.restore.run.Alone b past b' (.done (.error e)) ∧
      r.OnlyAdds b past b' (.done (.error e)) := by
  intro r keys b second b'
  have hvalid : b.keys.Valid := KeyStore.valid_empty.write _ _
  have hdecode : (Snapshot.decode? tokens.encode : Option (Snapshot Secret)) = some tokens :=
    Snapshot.decode?_encode (by decide) (fun v _ => v.storable) fun v _ => v.fitsSnapshot
  have hblob : b.blobs.get? r.backupKey = some tokens.encode := BlobMap.get?_put_self _ _ _
  have hsaved : r.saved? b = some ([⟨"a", "1"⟩, ⟨"b", "2"⟩] ++ ⟨"b", "3"⟩ :: []) := by
    rw [saved?, hblob]
    simp only [hdecode]
    rfl
  have htaken : keys.get? (r.key "a") ≠ none := by
    rw [KeyStore.get?_write_self]
    exact Option.some_ne_none _
  have hfree : keys.get? (r.key "b") = none := KeyStore.get?_write_of_ne (by decide) _ _
  have hb' : r.added [⟨"a", "1"⟩, ⟨"b", "2"⟩] b = b' := by
    have hfirst : r.addMissing [⟨"a", "1"⟩, ⟨"b", "2"⟩] keys = r.addMissing [⟨"b", "2"⟩] keys :=
      if_neg htaken
    have hsecond : r.addMissing [⟨"b", "2"⟩] keys = (1, b'.keys) := if_pos hfree
    unfold added
    rw [hfirst, hsecond]
  obtain ⟨past, e, run⟩ := exists_cutOff hvalid hsaved
  rw [hb'] at run
  exact ⟨hvalid, past, e, run, restore_onlyAdds hvalid run⟩

end Repository

end Workplane
