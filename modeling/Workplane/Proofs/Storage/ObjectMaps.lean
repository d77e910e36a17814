import Mathlib.Logic.Function.Basic
import Workplane.Proofs.Objects.Lossless
import Workplane.Proofs.Service.Undisturbed
import Workplane.Proofs.Text.ByteOrder

/-!
# Object stores as maps

Six kinds of objects share one store, where each object stands under a key made of its scope, its
kind and its name.  What the operations of all repositories answer is what a family of maps from
names to objects answers, one map for each scope and kind (`ObjectMaps.perform_eq_iff`), as long as
the scopes have no slashes or are all the same.

The map is an acceptor of exchanges, operations together with their results (`Model.Step`).  A store
represents a map (`Represents`); every exchange keeps it so (`Represents.step`), since keys of
different places differ (`Place.eq_of_key_eq`) and the entries that are listed for a place are those
of its names (`Represents.lists`).
-/

namespace Workplane.ObjectMaps

/-! ### Places -/

/-- The objects of one kind in one scope. -/
structure Place where
  scope : String
  kind : StoredKind
  deriving DecidableEq

namespace Place

/-- The repository of a place. -/
def repository (p : Place) : Repository p.kind.Object where
  scope := p.scope

/-- The key of a name in a place. -/
def key (p : Place) (name : String) : String :=
  p.repository.key name

/-- The scopes of two places are the same, or they have no slashes. -/
def Compatible (p p' : Place) : Prop :=
  p.scope = p'.scope ∨ '/' ∉ p.scope.toList ∧ '/' ∉ p'.scope.toList

/-- A key tells its place and its name. -/
theorem eq_of_key_eq {p p' : Place} (hcompatible : p.Compatible p') {name name' : String}
    (h : p.key name = p'.key name') : p = p' ∧ name = name' := by
  have h : p.repository.key name = p'.repository.key name' := h
  have hscope : p.scope = p'.scope := by
    rcases hcompatible with heq | ⟨hp, hp'⟩
    · exact heq
    · exact Repository.scope_eq_of_key_eq hp hp' h
  have hplural : p.kind.plural = p'.kind.plural :=
    Repository.plural_eq_of_key_eq hscope p.kind.slash_notMem_plural p'.kind.slash_notMem_plural h
  have hkind := StoredKind.eq_of_plural_eq hplural
  obtain ⟨scope, kind⟩ := p
  obtain ⟨scope', kind'⟩ := p'
  obtain rfl : scope = scope' := hscope
  obtain rfl : kind = kind' := hkind
  exact ⟨rfl, Repository.key_injective _ h⟩

end Place

/-! ### Operations -/

/-- An operation of a repository. -/
inductive Operation (α : Type) where
  | create (name : String) (a : α)
  | get (name : String)
  | getVersioned (name : String)
  | list
  | update (name : String) (a : α)
  | updateAt (name : String) (a : α) (revision : UInt64)
  | delete (name : String)

/-- What an operation answers when it succeeds. -/
inductive Answer (α : Type) where
  | revision (n : UInt64)
  | object (a : α)
  | versioned (v : Versioned α)
  | objects (as : List α)
  | done

namespace Operation

variable {α : Type} [Kind α]

/-- The program of an operation. -/
def program (r : Repository α) : Operation α → StoreProgram (Answer α)
  | create name a => .revision <$> r.create name a
  | get name => .object <$> r.get name
  | getVersioned name => .versioned <$> r.getVersioned name
  | list => .objects <$> r.list
  | update name a => .revision <$> r.update name a
  | updateAt name a revision => .revision <$> r.updateAt name a revision
  | delete name => (fun _ => .done) <$> r.delete name

/-- The operation changes the store when it succeeds. -/
def isChange : Operation α → Bool
  | create .. | update .. | updateAt .. | delete _ => true
  | get _ | getVersioned _ | list => false

/-- What is written is read back as it is, and an update names a revision that an object can
have. -/
def Proper : Operation α → Prop
  | create _ a | update _ a => Kind.decode? (Kind.encode a) = some a
  | updateAt _ a revision => Kind.decode? (Kind.encode a) = some a ∧ 1 ≤ revision
  | get _ | getVersioned _ | list | delete _ => True

end Operation

/-- An operation on a place. -/
structure Command where
  place : Place
  operation : Operation place.kind.Object

/-- An operation on a place and its result. -/
structure Exchange where
  place : Place
  operation : Operation place.kind.Object
  result : Except StoreError (Answer place.kind.Object)

namespace Exchange

/-- The operation of an exchange. -/
def command (x : Exchange) : Command :=
  ⟨x.place, x.operation⟩

/-- The exchange has changed the store. -/
def hasChanged (x : Exchange) : Bool :=
  x.operation.isChange && x.result.isOk

theorem countP_hasChanged_cons (x : Exchange) (xs : List Exchange) :
    (x :: xs).countP hasChanged =
      xs.countP hasChanged + (x.operation.isChange && x.result.isOk).toNat := by
  rw [List.countP_cons, hasChanged]
  cases x.operation.isChange && x.result.isOk <;> rfl

end Exchange

/-- The exchanges of operations one after another, and the backend after them. -/
def perform (now : Timestamp) : List Command → Backend → List Exchange × Backend
  | [], b => ([], b)
  | c :: cs, b =>
    let (result, b') := (c.operation.program c.place.repository).run.undisturbed now b
    let (xs, b'') := perform now cs b'
    (⟨c.place, c.operation, result⟩ :: xs, b'')

/-! ### Maps -/

/-- A map from names to objects with their revisions for every place, and the number of changes that
have led to it. -/
structure Model where
  count : Nat
  objects : (p : Place) → String → Option (Versioned p.kind.Object)

namespace Model

/-- The maps that nothing was put in. -/
def empty : Model :=
  ⟨0, fun _ _ => none⟩

variable (σ : Model) (p : Place)

/-- The revision of the next change. -/
def next : UInt64 :=
  .ofNat (σ.count + 1)

/-- The maps after the content of a name was changed. -/
def set (name : String) (content : Option (Versioned p.kind.Object)) : Model where
  count := σ.count + 1
  objects := Function.update σ.objects p (Function.update (σ.objects p) name content)

/-- The maps after an object was put under a name. -/
def put (name : String) (a : p.kind.Object) : Model :=
  σ.set p name (some ⟨a, σ.next⟩)

/-- A list shows exactly the objects that are there, each once and in the order of the bytes of the
names. -/
def Lists (as : List p.kind.Object) : Prop :=
  ∃ names : List String, names.Pairwise (bytes · < bytes ·) ∧
    (∀ name, name ∈ names ↔ (σ.objects p name).isSome = true) ∧
    as = names.filterMap fun name => (σ.objects p name).map Versioned.object

/-- What an operation on a place of the maps answers, and what it leaves of them. -/
inductive Step : Operation p.kind.Object → Except StoreError (Answer p.kind.Object) → Model → Prop
  | create {name : String} (a : p.kind.Object) (absent : σ.objects p name = none) :
    Step (.create name a) (.ok (.revision σ.next)) (σ.put p name a)
  | createTaken {name : String} (a : p.kind.Object) {v : Versioned p.kind.Object}
    (present : σ.objects p name = some v) :
    Step (.create name a) (.error (.alreadyExists p.kind.plural name)) σ
  | get {name : String} {v : Versioned p.kind.Object} (present : σ.objects p name = some v) :
    Step (.get name) (.ok (.object v.object)) σ
  | getMissing {name : String} (absent : σ.objects p name = none) :
    Step (.get name) (.error (.notFound p.kind.plural name)) σ
  | getVersioned {name : String} {v : Versioned p.kind.Object}
    (present : σ.objects p name = some v) : Step (.getVersioned name) (.ok (.versioned v)) σ
  | getVersionedMissing {name : String} (absent : σ.objects p name = none) :
    Step (.getVersioned name) (.error (.notFound p.kind.plural name)) σ
  | list {as : List p.kind.Object} (lists : σ.Lists p as) : Step .list (.ok (.objects as)) σ
  | update {name : String} (a : p.kind.Object) {v : Versioned p.kind.Object}
    (present : σ.objects p name = some v) :
    Step (.update name a) (.ok (.revision σ.next)) (σ.put p name a)
  | updateMissing {name : String} (a : p.kind.Object) (absent : σ.objects p name = none) :
    Step (.update name a) (.error (.notFound p.kind.plural name)) σ
  | updateAt {name : String} (a : p.kind.Object) {v : Versioned p.kind.Object}
    {revision : UInt64} (present : σ.objects p name = some v) (current : v.revision = revision) :
    Step (.updateAt name a revision) (.ok (.revision σ.next)) (σ.put p name a)
  | updateAtMissing {name : String} (a : p.kind.Object) (revision : UInt64)
    (absent : σ.objects p name = none) :
    Step (.updateAt name a revision) (.error (.notFound p.kind.plural name)) σ
  | updateAtConflict {name : String} (a : p.kind.Object) {v : Versioned p.kind.Object}
    {revision : UInt64} (present : σ.objects p name = some v) (stale : v.revision ≠ revision) :
    Step (.updateAt name a revision) (.error (.conflict p.kind.plural name)) σ
  | delete {name : String} {v : Versioned p.kind.Object} (present : σ.objects p name = some v) :
    Step (.delete name) (.ok .done) (σ.set p name none)
  | deleteMissing {name : String} (absent : σ.objects p name = none) :
    Step (.delete name) (.error (.notFound p.kind.plural name)) σ

/-- Exchanges one after another are those of the maps. -/
inductive Accepts : Model → List Exchange → Model → Prop
  | nil (σ : Model) : Accepts σ [] σ
  | cons {σ σ' σ'' : Model} {x : Exchange} {xs : List Exchange}
    (step : σ.Step x.place x.operation x.result σ') (rest : Accepts σ' xs σ'') :
    Accepts σ (x :: xs) σ''

end Model

namespace Model

variable {σ : Model} {p p' : Place} {name name' : String}
  {content : Option (Versioned p.kind.Object)}

theorem objects_set_self : (σ.set p name content).objects p name = content := by
  simp [set]

theorem objects_set_of_ne (h : p' = p → name' ≠ name) :
    (σ.set p name content).objects p' name' = σ.objects p' name' := by
  show Function.update σ.objects p (Function.update (σ.objects p) name content) p' name' = _
  by_cases hp : p' = p
  · subst hp
    rw [Function.update_self, Function.update_of_ne (h rfl)]
  · rw [Function.update_of_ne hp]

/-- A list of the present objects is the only one. -/
theorem Lists.unique {as as' : List p.kind.Object} (h : σ.Lists p as) (h' : σ.Lists p as') :
    as = as' := by
  obtain ⟨names, hsorted, hmem, rfl⟩ := h
  obtain ⟨names', hsorted', hmem', rfl⟩ := h'
  have heq : names = names' :=
    eq_of_ascending hsorted hsorted' fun name => (hmem name).trans (hmem' name).symm
  rw [heq]

/-- What an operation answers and leaves is determined. -/
theorem Step.unique {op : Operation p.kind.Object}
    {result result' : Except StoreError (Answer p.kind.Object)} {σ₁ σ₂ : Model}
    (h : σ.Step p op result σ₁) (h' : σ.Step p op result' σ₂) : result = result' ∧ σ₁ = σ₂ := by
  cases h with
  | list lists =>
    cases h' with
    | list lists' =>
      rw [lists.unique lists']
      exact ⟨rfl, rfl⟩
  | _ =>
    -- The other answers are told apart by what is there, and by its revision.
    cases h' <;> simp_all

/-- The changes are counted. -/
theorem Step.count_eq {op : Operation p.kind.Object}
    {result : Except StoreError (Answer p.kind.Object)} {σ' : Model} (h : σ.Step p op result σ') :
    σ'.count = σ.count + (op.isChange && result.isOk).toNat := by
  cases h <;> rfl

/-- The maps accept one list of results for a list of operations. -/
theorem Accepts.unique {xs ys : List Exchange} {σ₁ σ₂ : Model} (h : σ.Accepts xs σ₁)
    (h' : σ.Accepts ys σ₂) (hcommands : xs.map Exchange.command = ys.map Exchange.command) :
    xs = ys := by
  induction h generalizing ys σ₂ with
  | nil σ => exact (List.map_eq_nil_iff.1 hcommands.symm).symm
  | @cons σ _ _ x xs step _ ih =>
    cases h' with
    | nil => exact absurd hcommands (List.cons_ne_nil _ _)
    | @cons _ _ _ y ys step' rest' =>
      obtain ⟨hhead, htail⟩ := List.cons.inj hcommands
      obtain ⟨place, operation, result⟩ := x
      obtain ⟨place', operation', result'⟩ := y
      obtain ⟨rfl, hoperation⟩ := Command.mk.inj hhead
      obtain rfl := eq_of_heq hoperation
      obtain ⟨rfl, rfl⟩ := step.unique step'
      rw [ih rest' htail]

end Model

/-! ### Stores -/

/-- A store holds what some of the maps hold, and its revision is their number of changes. -/
structure Represents (places : Place → Prop) (s : KeyStore) (σ : Model) : Prop where
  valid : s.Valid
  count : s.revision.toNat = σ.count
  absent : ∀ p, places p → ∀ name, σ.objects p name = none → s.get? (p.key name) = none
  present : ∀ p, places p → ∀ name v, σ.objects p name = some v →
    ∃ e, s.get? (p.key name) = some e ∧ Kind.decode? e.value = some v.object ∧
      e.revision = v.revision

theorem represents_empty (places : Place → Prop) : Represents places .empty .empty where
  valid := KeyStore.valid_empty
  count := rfl
  absent _ _ _ _ := rfl
  present _ _ _ _ h := nomatch h

section Represents

variable {places : Place → Prop} {s s' : KeyStore} {σ : Model} {p : Place} {name : String}
  {now : Timestamp} {b : Backend}

namespace Represents

/-- A change of the content of one key is one of the map of its place. -/
theorem set (h : Represents places s σ)
    (hcompatible : ∀ p p', places p → places p' → p.Compatible p') (hp : places p)
    (hcount : σ.count + 1 < 2 ^ 64) {content : Option (Versioned p.kind.Object)}
    (hvalid : s'.Valid) (hrevision : s'.revision = s.nextRevision)
    (habsent : content = none → s'.get? (p.key name) = none)
    (hpresent : ∀ v, content = some v → ∃ e, s'.get? (p.key name) = some e ∧
      Kind.decode? e.value = some v.object ∧ e.revision = v.revision)
    (hothers : ∀ key, p.key name ≠ key → s'.get? key = s.get? key) :
    Represents places s' (σ.set p name content) := by
  have hcounts : s.Counts := by
    unfold KeyStore.Counts
    rw [h.count]
    exact hcount
  -- Another name or another place has another key.
  have hne {p' : Place} (hp' : places p') {name' : String} (hne : ¬(p' = p ∧ name' = name)) :
      p.key name ≠ p'.key name' := by
    intro hkey
    obtain ⟨hplace, hname⟩ := Place.eq_of_key_eq (hcompatible p p' hp hp') hkey
    exact hne ⟨hplace.symm, hname.symm⟩
  constructor
  · exact hvalid
  · rw [hrevision, KeyStore.toNat_nextRevision_of_counts hcounts, h.count]
    rfl
  · intro p' hp' name' hnone
    by_cases hsame : p' = p ∧ name' = name
    · obtain ⟨rfl, rfl⟩ := hsame
      rw [Model.objects_set_self] at hnone
      exact habsent hnone
    · rw [Model.objects_set_of_ne fun heq hname => hsame ⟨heq, hname⟩] at hnone
      rw [hothers _ (hne hp' hsame)]
      exact h.absent p' hp' name' hnone
  · intro p' hp' name' v hsome
    by_cases hsame : p' = p ∧ name' = name
    · obtain ⟨rfl, rfl⟩ := hsame
      rw [Model.objects_set_self] at hsome
      exact hpresent v hsome
    · rw [Model.objects_set_of_ne fun heq hname => hsame ⟨heq, hname⟩] at hsome
      rw [hothers _ (hne hp' hsame)]
      exact h.present p' hp' name' v hsome

/-- An object that is written is put in the map. -/
theorem put (h : Represents places s σ)
    (hcompatible : ∀ p p', places p → places p' → p.Compatible p') (hp : places p)
    (hcount : σ.count + 1 < 2 ^ 64) {a : p.kind.Object}
    (ha : Kind.decode? (Kind.encode a) = some a) :
    s.nextRevision = σ.next ∧
      Represents places (s.write (p.key name) (Kind.encode a)) (σ.put p name a) := by
  have hcounts : s.Counts := by
    unfold KeyStore.Counts
    rw [h.count]
    exact hcount
  have hnext : s.nextRevision = σ.next := by
    apply UInt64.toNat_inj.1
    rw [KeyStore.toNat_nextRevision_of_counts hcounts, h.count, Model.next, UInt64.toNat_ofNat']
    exact (Nat.mod_eq_of_lt hcount).symm
  refine ⟨hnext, h.set hcompatible hp hcount (h.valid.write _ _) rfl nofun ?_ ?_⟩
  · intro v hv
    obtain rfl := Option.some.inj hv
    exact ⟨_, KeyStore.get?_write_self _ _ _, ha, hnext⟩
  · exact fun key hne => KeyStore.get?_write_of_ne hne _ _

/-- What is removed is removed from the map. -/
theorem remove (h : Represents places s σ)
    (hcompatible : ∀ p p', places p → places p' → p.Compatible p') (hp : places p)
    (hcount : σ.count + 1 < 2 ^ 64) {v : Versioned p.kind.Object}
    (hv : σ.objects p name = some v) :
    Represents places (s.delete (p.key name)).2 (σ.set p name none) := by
  obtain ⟨e, he, -⟩ := h.present p hp name v hv
  have hrevision : (s.delete (p.key name)).2.revision = s.nextRevision := by
    rw [KeyStore.delete, he]
    rfl
  exact h.set hcompatible hp hcount (h.valid.delete _) hrevision
    (fun _ => KeyStore.get?_delete_self _ _)
    (fun _ hnone => absurd hnone (Option.some_ne_none _).symm)
    fun key hne => KeyStore.get?_delete_of_ne hne _

/-! #### Listings -/

/-- What a listing finds is what the map of the place holds, in the order of the names. -/
theorem lists (h : Represents places s σ) (hp : places p) :
    σ.Lists p (p.repository.listed s) := by
  let nameOf (e : Entry) : String :=
    String.ofList (e.key.toList.drop p.repository.root.toList.length)
  have hname {e : Entry} {name : String} (he : e.key = p.key name) : nameOf e = name := by
    show String.ofList (e.key.toList.drop _) = name
    rw [he, Place.key, Repository.key, String.toList_append, List.drop_left, String.ofList_toList]
  -- Every entry that is listed stands under its name.
  have hkey {e : Entry} (he : e ∈ s.list p.repository.root) :
      e.key = p.key (nameOf e) ∧ s.get? (p.key (nameOf e)) = some e := by
    obtain ⟨hget, hunder⟩ := KeyStore.mem_list.1 he
    obtain ⟨name, hkey⟩ := KeyStore.isUnder_iff.1 hunder
    have hkey : e.key = p.key name := hkey
    rw [hname hkey, ← hkey]
    exact ⟨rfl, hget⟩
  have hobject {e : Entry} (he : e ∈ s.list p.repository.root) :
      ∃ v, σ.objects p (nameOf e) = some v ∧ Kind.decode? e.value = some v.object := by
    obtain ⟨-, hget⟩ := hkey he
    cases hv : σ.objects p (nameOf e) with
    | none => exact absurd ((h.absent p hp _ hv).symm.trans hget) (Option.some_ne_none e).symm
    | some v =>
      obtain ⟨e', he', hdecode, -⟩ := h.present p hp _ v hv
      obtain rfl := Option.some.inj (he'.symm.trans hget)
      exact ⟨v, rfl, hdecode⟩
  refine ⟨(s.list p.repository.root).map nameOf, ?_, fun name => ?_, ?_⟩
  · rw [List.pairwise_map]
    refine (s.pairwise_list _).imp_of_mem fun he he' hlt => ?_
    rw [(hkey he).1, (hkey he').1] at hlt
    exact bytes_lt_bytes_iff.2 (KeyStore.append_lt_append_iff.1 hlt)
  · rw [List.mem_map]
    constructor
    · rintro ⟨e, he, rfl⟩
      obtain ⟨v, hv, -⟩ := hobject he
      rw [hv]
      rfl
    · intro hsome
      obtain ⟨v, hv⟩ := Option.isSome_iff_exists.1 hsome
      obtain ⟨e, he, -⟩ := h.present p hp name v hv
      have hekey : e.key = p.key name := KeyStore.key_of_get? he
      have hunder : KeyStore.isUnder p.repository.root e.key = true :=
        KeyStore.isUnder_iff.2 ⟨name, hekey⟩
      exact ⟨e, KeyStore.mem_list.2 ⟨by rw [hekey]; exact he, hunder⟩, hname hekey⟩
  · rw [List.filterMap_map]
    refine List.filterMap_congr fun e he => ?_
    obtain ⟨v, hv, hdecode⟩ := hobject he
    show Kind.decode? e.value = (σ.objects p (nameOf e)).map Versioned.object
    rw [hv, hdecode]
    rfl

/-! #### Steps -/

/-- What an operation has answered and left behind is what the maps answer and become, unless the
count of their changes has come to its end. -/
def Follows (places : Place → Prop) (σ : Model) (p : Place) (op : Operation p.kind.Object)
    (outcome : Except StoreError (Answer p.kind.Object) × Backend) : Prop :=
  (op.isChange = true → outcome.1.isOk = true → σ.count + 1 < 2 ^ 64) →
    ∃ σ', σ.Step p op outcome.1 σ' ∧ Represents places outcome.2.keys σ'

/-- An operation that leaves the store as it is leaves the maps as they are. -/
theorem follows_of_unchanged (h : Represents places b.keys σ) {op : Operation p.kind.Object}
    {result : Except StoreError (Answer p.kind.Object)} (hstep : σ.Step p op result σ) :
    Follows places σ p op (result, b) :=
  fun _ => ⟨σ, hstep, h⟩

/-- A creation does in the store what it does in the model. -/
theorem follows_create (h : Represents places b.keys σ)
    (hcompatible : ∀ p p', places p → places p' → p.Compatible p') (hp : places p) (name : String)
    {a : p.kind.Object} (ha : Kind.decode? (Kind.encode a) = some a) :
    Follows places σ p (.create name a)
      (((Operation.create name a).program p.repository).run.undisturbed now b) := by
  unfold Operation.program
  cases hv : σ.objects p name with
  | none =>
    have hfree := h.absent p hp name hv
    rw [undisturbed_run_map (Repository.undisturbed_create hfree a now)]
    intro hcount
    obtain ⟨hnext, hput⟩ := h.put hcompatible hp (hcount rfl rfl) ha
    refine ⟨_, ?_, hput⟩
    show σ.Step p _ (.ok (.revision b.keys.nextRevision)) _
    rw [hnext]
    exact .create a hv
  | some v =>
    obtain ⟨e, he, -⟩ := h.present p hp name v hv
    have htaken : b.keys.revisionOf (p.repository.key name) ≠ 0 := by
      intro h0
      have hnone := h.valid.get?_eq_none h0
      exact absurd (hnone.symm.trans he) (by simp)
    rw [undisturbed_run_map (Repository.undisturbed_create_of_taken htaken a now)]
    exact h.follows_of_unchanged (.createTaken a hv)

theorem follows_getVersioned (h : Represents places b.keys σ) (hp : places p) (name : String) :
    Follows places σ p (.getVersioned name)
      (((Operation.getVersioned name).program p.repository).run.undisturbed now b) := by
  unfold Operation.program
  cases hv : σ.objects p name with
  | none =>
    rw [undisturbed_run_map
      (Repository.undisturbed_getVersioned_of_absent (h.absent p hp name hv) now)]
    exact h.follows_of_unchanged (.getVersionedMissing hv)
  | some v =>
    obtain ⟨e, he, hdecode, hrevision⟩ := h.present p hp name v hv
    rw [undisturbed_run_map (Repository.undisturbed_getVersioned he hdecode), hrevision]
    exact h.follows_of_unchanged (.getVersioned hv)

theorem follows_get (h : Represents places b.keys σ) (hp : places p) (name : String) :
    Follows places σ p (.get name)
      (((Operation.get name).program p.repository).run.undisturbed now b) := by
  unfold Operation.program
  cases hv : σ.objects p name with
  | none =>
    rw [undisturbed_run_map (Repository.undisturbed_get_of_absent (h.absent p hp name hv) now)]
    exact h.follows_of_unchanged (.getMissing hv)
  | some v =>
    obtain ⟨e, he, hdecode, -⟩ := h.present p hp name v hv
    have hstored : p.repository.Stored b.keys name v.object := ⟨e, he, hdecode⟩
    rw [undisturbed_run_map (hstored.undisturbed_get now)]
    exact h.follows_of_unchanged (.get hv)

theorem follows_list (h : Represents places b.keys σ) (hp : places p) :
    Follows places σ p .list ((Operation.list.program p.repository).run.undisturbed now b) := by
  unfold Operation.program
  rw [undisturbed_run_map (p.repository.undisturbed_list now b)]
  exact h.follows_of_unchanged (.list (h.lists hp))

/-- An object that is there is replaced at its revision. -/
theorem follows_replace (h : Represents places b.keys σ)
    (hcompatible : ∀ p p', places p → places p' → p.Compatible p') (hp : places p)
    {a : p.kind.Object} (ha : Kind.decode? (Kind.encode a) = some a) {op : Operation p.kind.Object}
    (hop : op.isChange = true)
    (hstep : σ.Step p op (.ok (.revision σ.next)) (σ.put p name a)) :
    Follows places σ p op (.ok (.revision b.keys.nextRevision),
      { b with keys := b.keys.write (p.repository.key name) (Kind.encode a) }) := by
  intro hcount
  obtain ⟨hnext, hput⟩ := h.put hcompatible hp (hcount hop rfl) ha
  refine ⟨_, ?_, hput⟩
  show σ.Step p _ (.ok (.revision b.keys.nextRevision)) _
  rw [hnext]
  exact hstep

theorem follows_update (h : Represents places b.keys σ)
    (hcompatible : ∀ p p', places p → places p' → p.Compatible p') (hp : places p) (name : String)
    {a : p.kind.Object} (ha : Kind.decode? (Kind.encode a) = some a) :
    Follows places σ p (.update name a)
      (((Operation.update name a).program p.repository).run.undisturbed now b) := by
  unfold Operation.program Repository.update
  cases hv : σ.objects p name with
  | none =>
    rw [undisturbed_run_map (undisturbed_run_bind_error
      (Repository.undisturbed_getVersioned_of_absent (h.absent p hp name hv) now))]
    exact h.follows_of_unchanged (.updateMissing a hv)
  | some v =>
    obtain ⟨e, he, hdecode, -⟩ := h.present p hp name v hv
    rw [undisturbed_run_map ((undisturbed_run_bind
      (Repository.undisturbed_getVersioned he hdecode)).trans
        (Repository.undisturbed_updateAt (KeyStore.revisionOf_of_get? he)))]
    exact h.follows_replace hcompatible hp ha rfl (.update a hv)

theorem follows_updateAt (h : Represents places b.keys σ)
    (hcompatible : ∀ p p', places p → places p' → p.Compatible p') (hp : places p) (name : String)
    {a : p.kind.Object} (ha : Kind.decode? (Kind.encode a) = some a) {revision : UInt64}
    (hrevision : 1 ≤ revision) :
    Follows places σ p (.updateAt name a revision)
      (((Operation.updateAt name a revision).program p.repository).run.undisturbed now b) := by
  unfold Operation.program
  cases hv : σ.objects p name with
  | none =>
    have h0 : b.keys.revisionOf (p.repository.key name) = 0 :=
      KeyStore.revisionOf_of_get?_eq_none (h.absent p hp name hv)
    have hne : b.keys.revisionOf (p.repository.key name) ≠ revision := by
      rintro rfl
      rw [h0] at hrevision
      exact absurd hrevision (by decide)
    rw [undisturbed_run_map (Repository.undisturbed_updateAt_of_ne hne a now), if_pos h0]
    exact h.follows_of_unchanged (.updateAtMissing a revision hv)
  | some v =>
    obtain ⟨e, he, -, hv'⟩ := h.present p hp name v hv
    have hpresent : b.keys.revisionOf (p.repository.key name) = v.revision :=
      (KeyStore.revisionOf_of_get? he).trans hv'
    by_cases hsame : v.revision = revision
    · rw [undisturbed_run_map (Repository.undisturbed_updateAt (hpresent.trans hsame))]
      exact h.follows_replace hcompatible hp ha rfl (.updateAt a hv hsame)
    · have hne : b.keys.revisionOf (p.repository.key name) ≠ revision := by rwa [hpresent]
      have hne0 : b.keys.revisionOf (p.repository.key name) ≠ 0 := by
        intro h0
        exact absurd ((h.valid.get?_eq_none h0).symm.trans he) (by simp)
      rw [undisturbed_run_map (Repository.undisturbed_updateAt_of_ne hne a now), if_neg hne0]
      exact h.follows_of_unchanged (.updateAtConflict a hv hsame)

/-- A deletion does in the store what it does in the model. -/
theorem follows_delete (h : Represents places b.keys σ)
    (hcompatible : ∀ p p', places p → places p' → p.Compatible p') (hp : places p)
    (name : String) :
    Follows places σ p (.delete name)
      (((Operation.delete name).program p.repository).run.undisturbed now b) := by
  unfold Operation.program
  rw [undisturbed_run_map (Repository.undisturbed_delete _ name now b)]
  cases hv : σ.objects p name with
  | none =>
    have habsent : b.keys.get? (p.repository.key name) = none := h.absent p hp name hv
    rw [KeyStore.delete_of_get?_eq_none habsent, habsent]
    exact h.follows_of_unchanged (.deleteMissing hv)
  | some v =>
    obtain ⟨e, he, -⟩ := h.present p hp name v hv
    have hpresent : b.keys.get? (p.repository.key name) = some e := he
    rw [hpresent]
    exact fun hcount => ⟨_, .delete hv, h.remove hcompatible hp (hcount rfl rfl) hv⟩

/-- Every operation answers what the maps answer, and the store represents them afterwards. -/
theorem step (h : Represents places b.keys σ)
    (hcompatible : ∀ p p', places p → places p' → p.Compatible p') (hp : places p)
    {op : Operation p.kind.Object} (hproper : op.Proper) (now : Timestamp) :
    Follows places σ p op ((op.program p.repository).run.undisturbed now b) := by
  cases op with
  | create name a => exact h.follows_create hcompatible hp name hproper
  | get name => exact h.follows_get hp name
  | getVersioned name => exact h.follows_getVersioned hp name
  | list => exact h.follows_list hp
  | update name a => exact h.follows_update hcompatible hp name hproper
  | updateAt name a revision =>
    exact h.follows_updateAt hcompatible hp name hproper.1 hproper.2
  | delete name => exact h.follows_delete hcompatible hp name

/-! #### Runs -/

/-- Operations one after another answer what the maps answer. -/
theorem perform (h : Represents places b.keys σ)
    (hcompatible : ∀ p p', places p → places p' → p.Compatible p') {cs : List Command}
    (hplaces : ∀ c ∈ cs, places c.place) (hproper : ∀ c ∈ cs, c.operation.Proper)
    {now : Timestamp}
    (hcount : σ.count + (perform now cs b).1.countP Exchange.hasChanged < 2 ^ 64) :
    ∃ σ', σ.Accepts (perform now cs b).1 σ' ∧ Represents places (perform now cs b).2.keys σ' := by
  induction cs generalizing σ b with
  | nil => exact ⟨σ, .nil σ, h⟩
  | cons c cs ih =>
    obtain ⟨hp, hplaces⟩ := List.forall_mem_cons.1 hplaces
    obtain ⟨hop, hproper⟩ := List.forall_mem_cons.1 hproper
    simp only [ObjectMaps.perform, Exchange.countP_hasChanged_cons] at hcount ⊢
    obtain ⟨σ', hstep, h'⟩ := h.step hcompatible hp hop now fun hchange hok => by
      rw [hchange, hok, Bool.and_self, Bool.toNat_true] at hcount
      omega
    have hcount' := hstep.count_eq
    obtain ⟨σ'', haccepts, h''⟩ := ih h' hplaces hproper (by omega)
    exact ⟨σ'', .cons hstep haccepts, h''⟩

end Represents

end Represents

theorem map_command_perform (now : Timestamp) (cs : List Command) (b : Backend) :
    (perform now cs b).1.map Exchange.command = cs := by
  induction cs generalizing b with
  | nil => rfl
  | cons c cs ih =>
    show c :: (perform now cs _).1.map Exchange.command = c :: cs
    rw [ih]

/-- Operations on the repositories of all kinds, one after another on a store that starts empty,
answer what the maps answer, and nothing else: an object is created where there is none, read,
replaced and removed where there is one, replaced at a revision only if that is its own, and listed
with the others of its place.  The scopes have no slashes or are the same, what is written is read
back as it is, and the revisions do not run out. -/
theorem perform_eq_iff (now : Timestamp) {cs : List Command}
    (hcompatible : ∀ c ∈ cs, ∀ c' ∈ cs, c.place.Compatible c'.place)
    (hproper : ∀ c ∈ cs, c.operation.Proper)
    (hcount : (perform now cs .empty).1.countP Exchange.hasChanged < 2 ^ 64) (xs : List Exchange) :
    xs = (perform now cs .empty).1 ↔
      xs.map Exchange.command = cs ∧ ∃ σ, Model.empty.Accepts xs σ := by
  let places (p : Place) : Prop := ∃ c ∈ cs, c.place = p
  have hplaces : ∀ p p', places p → places p' → p.Compatible p' := by
    rintro _ _ ⟨c, hc, rfl⟩ ⟨c', hc', rfl⟩
    exact hcompatible c hc c' hc'
  have hempty : Represents places Backend.empty.keys Model.empty := represents_empty places
  obtain ⟨σ, haccepts, -⟩ := hempty.perform hplaces (fun c hc => ⟨c, hc, rfl⟩) hproper
    (by simpa [Model.empty] using hcount)
  constructor
  · rintro rfl
    exact ⟨map_command_perform now cs .empty, σ, haccepts⟩
  · rintro ⟨hcommands, σ', haccepts'⟩
    exact haccepts'.unique haccepts (hcommands.trans (map_command_perform now cs .empty).symm)

/-- A secret whose name has a slash is created, replaced at its first revision and listed in one
scope, and looked for in another. -/
def secretCommands : List Command :=
  [⟨⟨"ws", .secret⟩, .create "é/a" (⟨"é/a", "x"⟩ : Secret)⟩,
    ⟨⟨"ws", .secret⟩, .updateAt "é/a" (⟨"é/a", "y"⟩ : Secret) 1⟩,
    ⟨⟨"ws", .secret⟩, .list⟩,
    ⟨⟨"", .secret⟩, .get "é/a"⟩]

theorem perform_secretCommands :
    ∃ σ, Model.empty.Accepts (perform default secretCommands .empty).1 σ := by
  have hcompatible : ∀ c ∈ secretCommands, ∀ c' ∈ secretCommands, c.place.Compatible c'.place := by
    intro c hc c' hc'
    have hslash : ∀ c ∈ secretCommands, '/' ∉ c.place.scope.toList := by decide
    exact .inr ⟨hslash c hc, hslash c' hc'⟩
  have hproper : ∀ c ∈ secretCommands, c.operation.Proper := by
    have hread (v : Secret) : Kind.decode? (Kind.encode v) = some v := v.storable.decode?_encode
    simp only [secretCommands, List.forall_mem_cons]
    exact ⟨hread _, ⟨hread _, by decide⟩, trivial, trivial, List.forall_mem_nil _⟩
  have hcount : (perform default secretCommands .empty).1.countP Exchange.hasChanged < 2 ^ 64 := by
    refine Nat.lt_of_le_of_lt List.countP_le_length ?_
    decide
  exact ((perform_eq_iff default hcompatible hproper hcount _).1 rfl).2

end Workplane.ObjectMaps
