import Workplane.Proofs.Objects.Photons
import Workplane.Proofs.Objects.Quotas
import Workplane.Proofs.Objects.Replicas

/-!
# Storing without loss

An object of any of the six kinds that was read from a text is read back from its stored form as it
is, as long as its doubles are read back from the digits in which they are written
(`StoredKind.decode?_encode`).  Nothing else is lost: a member that is left out has the value that
is left out, a moment keeps its leap second, and a document nested as deeply as can be read is
written no deeper.
-/

namespace Workplane

/-! ### Doubles of documents -/

namespace Json

mutual

/-- The doubles of a document. -/
def doubles : Json → List Float
  | .number (.float x) => [x]
  | .array items => doublesOfItems items
  | .object members => doublesOfMembers members
  | .null | .bool _ | .number (.int _) | .string _ | .unreadable => []

/-- The doubles of the items. -/
def doublesOfItems : List Json → List Float
  | [] => []
  | item :: rest => item.doubles ++ doublesOfItems rest

/-- The doubles of the members. -/
def doublesOfMembers : List (String × Json) → List Float
  | [] => []
  | (_, value) :: rest => value.doubles ++ doublesOfMembers rest

end

theorem mem_doublesOfItems {items : List Json} {j : Json} (hj : j ∈ items) {x : Float}
    (hx : x ∈ j.doubles) : x ∈ doublesOfItems items := by
  induction items with
  | nil => exact absurd hj List.not_mem_nil
  | cons item rest ih =>
    rw [doublesOfItems, List.mem_append]
    rcases List.mem_cons.1 hj with rfl | hj
    · exact .inl hx
    · exact .inr (ih hj)

theorem mem_doublesOfMembers {members : List (String × Json)} {m : String × Json}
    (hm : m ∈ members) {x : Float} (hx : x ∈ m.2.doubles) : x ∈ doublesOfMembers members := by
  induction members with
  | nil => exact absurd hm List.not_mem_nil
  | cons first rest ih =>
    obtain ⟨name, value⟩ := first
    rw [doublesOfMembers, List.mem_append]
    rcases List.mem_cons.1 hm with rfl | hm
    · exact .inl hx
    · exact .inr (ih hm)

theorem number_reread_eq_self {n : Number} (hn : n.InRange)
    (hdoubles : ∀ x ∈ (Json.number n).doubles, Double.reread x = x) : n.reread = .number n := by
  cases n with
  | int n => exact Number.reread_int hn
  | float x =>
    rw [Number.reread_float hn, hdoubles x (List.mem_singleton_self x)]
    rfl

/-- A document that was read is read back if its doubles are. -/
theorem reread_eq_self {room : Nat} {j : Json} (hany : Reader.any room j = some j) (hj : j.InRange)
    (hdoubles : ∀ x ∈ j.doubles, Double.reread x = x) : j.reread = j := by
  match room, j with
  | _, .null | _, .bool _ | _, .string _ => rfl
  | _, .number n => exact number_reread_eq_self hj hdoubles
  | 0, .array _ | 0, .object _ | _, .unreadable => exact nomatch hany
  | room + 1, .array items =>
    obtain ⟨ks, hks, heq⟩ := Option.map_eq_some_iff.1 hany
    obtain rfl := Json.array.inj heq
    obtain ⟨hread, -⟩ := Reader.any_of_anyItems hks
    have hsame : ∀ k ∈ ks, k.reread = id k := fun k hk =>
      reread_eq_self (hread k hk) (itemsInRange_iff.1 hj k hk)
        fun x hx => hdoubles x (mem_doublesOfItems hk hx)
    show Json.array (rereadItems ks) = _
    rw [rereadItems_eq_map, List.map_congr_left hsame, List.map_id]
  | room + 1, .object members =>
    obtain ⟨ks, hks, heq⟩ := Option.map_eq_some_iff.1 hany
    obtain rfl := Json.object.inj heq
    obtain ⟨hread, -⟩ := Reader.any_of_anyMembers hks
    have hsame : ∀ m ∈ Sorted.ofList ks, (m.1, m.2.reread) = id m := fun m hm => by
      rw [reread_eq_self (hread m (Sorted.mem_of_mem_ofList hm)) (membersInRange_iff.1 hj m hm)
        fun x hx => hdoubles x (mem_doublesOfMembers hm hx)]
      rfl
    show Json.object (rereadMembers _) = _
    rw [rereadMembers_eq_map, List.map_congr_left hsame, List.map_id]

end Json

/-! ### Kinds -/

/-- The kinds of stored objects. -/
inductive StoredKind where
  | photon
  | deployment
  | secret
  | pod
  | event
  | quota
  deriving DecidableEq

namespace StoredKind

/-- The objects of a kind. -/
abbrev Object : StoredKind → Type
  | photon => Photon
  | deployment => Deployment
  | secret => Secret
  | pod => Pod
  | event => Event
  | quota => Quota

instance (k : StoredKind) : Kind k.Object :=
  match k with
  | .photon => inferInstanceAs (Kind Photon)
  | .deployment => inferInstanceAs (Kind Deployment)
  | .secret => inferInstanceAs (Kind Secret)
  | .pod => inferInstanceAs (Kind Pod)
  | .event => inferInstanceAs (Kind Event)
  | .quota => inferInstanceAs (Kind Quota)

/-- The plural name of a kind. -/
abbrev plural (k : StoredKind) : String :=
  Kind.plural k.Object

/-- The name of a kind is one part of a key. -/
theorem slash_notMem_plural (k : StoredKind) : '/' ∉ k.plural.toList := by
  cases k <;> decide

/-- Kinds have their own names. -/
theorem eq_of_plural_eq {k k' : StoredKind} (h : k.plural = k'.plural) : k = k' := by
  cases k <;> cases k' <;> first | rfl | exact absurd h (by decide)

end StoredKind

/-! ### Objects -/

/-- The doubles of an object are read back from the digits in which they are written. -/
def Kind.KeepsDoubles [Kind α] (a : α) : Prop :=
  ∀ x ∈ (Kind.toJson a).doubles, (Decimal.numeral x).toFloat? = some x

/-- A double is kept if what is written for it is read as it. -/
theorem Double.reread_eq_self {x : Float} (h : (Decimal.numeral x).toFloat? = some x) :
    Double.reread x = x := by
  rw [Double.reread, h]
  rfl

namespace Photon

theorem Spec.reread_eq_self {s : Photon.Spec} {room : Nat} (hread : s.IsReadAt room)
    (hrange : s.InRange)
    (h : ∀ j, s.openapiSchema = some j → ∀ x ∈ j.doubles, (Decimal.numeral x).toFloat? = some x) :
    s.reread = s := by
  have hschema : s.openapiSchema.map Json.reread = s.openapiSchema := by
    cases hj : s.openapiSchema with
    | none => rfl
    | some j =>
      have hsame : j.reread = j := Json.reread_eq_self (hread.schema j hj).1 (hrange j hj)
        fun x hx => Double.reread_eq_self (h j hj x hx)
      rw [Option.map_some, hsame]
  unfold reread
  rw [hschema]

/-- A photon is kept if the doubles of its schema are. -/
theorem reread_eq_self {p : Photon} {room : Nat} (hread : p.spec.IsReadAt room)
    (hrange : p.spec.InRange) (h : Kind.KeepsDoubles p) : p.reread = p := by
  have hspec : p.spec.reread = p.spec := by
    refine Spec.reread_eq_self hread hrange fun j hj x hx => h x ?_
    have hmem : ("openapi_schema", j) ∈ p.documentMembers := by
      simp [documentMembers, Spec.members, hj, Json.optional]
    exact Json.mem_doublesOfMembers hmem hx
  unfold reread
  rw [hspec]

end Photon

theorem Requirement.reread_eq_self {r : Requirement}
    (h : ∀ x ∈ r.toJson.doubles, Double.reread x = x) : r.reread = r := by
  have hcpu := h r.cpu (Json.mem_doublesOfMembers (m := ("cpu", .float r.cpu)) (by simp)
    (List.mem_singleton_self _))
  have haccelerators := h r.accelerators
    (Json.mem_doublesOfMembers (m := ("accelerator_num", .float r.accelerators)) (by simp)
      (List.mem_singleton_self _))
  unfold reread
  rw [hcpu, haccelerators]

/-- A deployment is kept if its doubles are. -/
theorem Deployment.reread_eq_self {d : Deployment} (h : Kind.KeepsDoubles d) : d.reread = d := by
  have hrequirement : d.spec.requirement.reread = d.spec.requirement := by
    refine Requirement.reread_eq_self fun x hx => Double.reread_eq_self (h x ?_)
    refine Json.mem_doublesOfMembers (m := ("spec", d.spec.toJson)) (by simp) ?_
    exact Json.mem_doublesOfMembers (m := ("resource_requirement", d.spec.requirement.toJson))
      (by simp) hx
  unfold reread
  rw [hrequirement]

theorem Resources.reread_eq_self {r : Resources} (h : ∀ x ∈ r.toJson.doubles, Double.reread x = x) :
    r.reread = r := by
  have hcpu := h r.cpu (Json.mem_doublesOfMembers (m := ("cpu", .float r.cpu)) (by simp)
    (List.mem_singleton_self _))
  have haccelerators := h r.accelerators
    (Json.mem_doublesOfMembers (m := ("accelerator_num", .float r.accelerators)) (by simp)
      (List.mem_singleton_self _))
  unfold reread
  rw [hcpu, haccelerators]

theorem Quota.reread_eq_self {q : Quota} (h : Kind.KeepsDoubles q) : q.reread = q := by
  have hhard : q.hard.reread = q.hard := by
    refine Resources.reread_eq_self fun x hx => Double.reread_eq_self (h x ?_)
    exact Json.mem_doublesOfMembers (m := ("hard", q.hard.toJson)) (by simp) hx
  have hused : q.used.reread = q.used := by
    refine Resources.reread_eq_self fun x hx => Double.reread_eq_self (h x ?_)
    exact Json.mem_doublesOfMembers (m := ("used", q.used.toJson)) (by simp) hx
  unfold reread
  rw [hhard, hused]

/-! ### Storing and reading -/

/-- An object that was read and whose doubles are kept is read back as it is. -/
theorem Kind.decode?_encode_of_reread_eq [Kind α] [Kind.Lawful α] {text : ByteArray} {a : α}
    (h : Kind.decode? text = some a) (hsame : Kind.Lawful.reread a = a) :
    Kind.decode? (Kind.encode a) = some a := by
  rw [(Kind.storable_of_decode? h).decode?_encode, hsame]

namespace StoredKind

/-- What was read from any text is read again from its own. -/
theorem decode?_encode (k : StoredKind) {text : ByteArray} {a : k.Object}
    (h : Kind.decode? text = some a) (hdoubles : Kind.KeepsDoubles a) :
    Kind.decode? (Kind.encode a) = some a := by
  cases k with
  | photon =>
    have hstorable : Kind.Storable (α := Photon) a := Kind.storable_of_decode? h
    have hread : Photon.Spec.IsReadAt 126 _ :=
      (Photon.isReadAt_of_reader hstorable.reader_toJson).1
    have hsame := Photon.reread_eq_self hread hstorable.inRange hdoubles
    exact Kind.decode?_encode_of_reread_eq h hsame
  | deployment =>
    exact Kind.decode?_encode_of_reread_eq (α := Deployment) h (Deployment.reread_eq_self hdoubles)
  | quota => exact Kind.decode?_encode_of_reread_eq (α := Quota) h (Quota.reread_eq_self hdoubles)
  | secret => exact Kind.decode?_encode_of_reread_eq (α := Secret) h rfl
  | pod => exact Kind.decode?_encode_of_reread_eq (α := Pod) h rfl
  | event => exact Kind.decode?_encode_of_reread_eq (α := Event) h rfl

/-- What is read from any text is read back from its stored form, and stored again as the same
bytes, if the digits that are written for its doubles are read as those doubles. -/
theorem lossless (k : StoredKind) {text : ByteArray} {a : k.Object}
    (h : Kind.decode? text = some a)
    (hdoubles : ∀ x ∈ (Kind.toJson a).doubles, (Decimal.numeral x).toFloat? = some x) :
    Kind.decode? (Kind.encode a) = some a ∧
      (Kind.decode? (α := k.Object) (Kind.encode a)).map Kind.encode = some (Kind.encode a) := by
  have hread := k.decode?_encode h hdoubles
  refine ⟨hread, ?_⟩
  rw [hread]
  rfl

/-- An event as an array that ends early, with an escape and a leap second of another zone. -/
def leapText : ByteArray :=
  "[\"e\",\"\\u0064\",\"\",\"\",\"\",\"-44-3-15t1:0:60.50+01:00\"]".toUTF8

/-- The event that the text spells. -/
def leapEvent : Event :=
  ⟨"e", "d", "", "", "", some ⟨-44, 3, 15, 0, 0, 59, 1500000000⟩, none⟩

theorem doubles_leapEvent : leapEvent.toJson.doubles = [] := by
  simp [leapEvent, Event.toJson, Json.doubles, Json.doublesOfMembers, Json.optional,
    Timestamp.toJson]

/-- An event in a leap second is kept. -/
theorem lossless_leapEvent :
    Kind.decode? leapText = some leapEvent ∧
      Kind.decode? (Kind.encode leapEvent) = some leapEvent := by
  have h : Kind.decode? leapText = some leapEvent := by decide +kernel
  have hdoubles : ∀ x ∈ leapEvent.toJson.doubles, (Decimal.numeral x).toFloat? = some x := by
    rw [doubles_leapEvent]
    exact List.forall_mem_nil _
  have hread := lossless .event h hdoubles
  exact ⟨h, hread.1⟩

end StoredKind

end Workplane
