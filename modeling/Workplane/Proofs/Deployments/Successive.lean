import Workplane.Proofs.Capacity.Patched

/-!
# Patches one after another

Of two patches the later one has the last word on every part that it sets, and the earlier one on
the others.  `Patch.followedBy` says so in one patch, and `Patch.apply_apply` that it changes a
specification as the two do one after the other.

The parts of a patch change different fields, with one exception: a shape also clears the raw
resources.  It leaves the replicas alone, so shapes and replicas can be set in either order
(`Requirement.scaledTo_shapedAs`), and the shapes of both patches, like their replicas, come
together as two changes of the same fields.  The main statement is `Patch.lastWriterWins`.
-/

namespace Workplane

/-! ### Requirements -/

namespace Requirement

/-- The requirement with a number of replicas, if there is to be one. -/
def scaledTo (r : Requirement) (n : UInt32) : Requirement :=
  if n > 0 then { r with minReplicas := some n } else r

/-- The requirement with a shape in the place of raw resources, if one is named. -/
def shapedAs (r : Requirement) (shape : String) : Requirement :=
  if shape.isEmpty then r else r.inShape shape

theorem scaledTo_shapedAs (r : Requirement) (n : UInt32) (shape : String) :
    (r.shapedAs shape).scaledTo n = (r.scaledTo n).shapedAs shape := by
  unfold scaledTo shapedAs
  by_cases hn : n > 0
  · by_cases hshape : shape.isEmpty = true
    · simp only [if_pos hn, if_pos hshape]
    · simp only [if_pos hn, if_neg hshape, inShape]
  · simp only [if_neg hn]

/-- Of two numbers of replicas the last one that is set counts. -/
theorem scaledTo_scaledTo (r : Requirement) (m n : UInt32) :
    (r.scaledTo m).scaledTo n = r.scaledTo (if n > 0 then n else m) := by
  unfold scaledTo
  by_cases hn : n > 0
  · by_cases hm : m > 0
    · simp only [if_pos hn, if_pos hm]
    · simp only [if_pos hn, if_neg hm]
  · simp only [if_neg hn]

theorem shapedAs_shapedAs (r : Requirement) (shape shape' : String) :
    (r.shapedAs shape).shapedAs shape' =
      r.shapedAs (if shape'.isEmpty then shape else shape') := by
  unfold shapedAs
  by_cases hshape' : shape'.isEmpty = true
  · simp only [if_pos hshape']
  · -- Whatever the first shape has cleared, the second one clears again.
    by_cases hshape : shape.isEmpty = true
    · simp only [if_neg hshape', if_pos hshape]
    · simp only [if_neg hshape', if_neg hshape, inShape]

end Requirement

namespace RequirementPatch

variable {p q : RequirementPatch} {r : Requirement}

/-- Two patches of a requirement in one. -/
def followedBy (p q : RequirementPatch) : RequirementPatch where
  minReplicas := if q.minReplicas > 0 then q.minReplicas else p.minReplicas
  shape := if q.shape.isEmpty then p.shape else q.shape

theorem apply_eq (p : RequirementPatch) (r : Requirement) :
    p.apply r = (r.scaledTo p.minReplicas).shapedAs p.shape :=
  rfl

/-- Two patches of a requirement are one. -/
theorem apply_apply (p q : RequirementPatch) (r : Requirement) :
    q.apply (p.apply r) = (p.followedBy q).apply r :=
  calc q.apply (p.apply r)
    _ = (((r.scaledTo p.minReplicas).shapedAs p.shape).scaledTo q.minReplicas).shapedAs q.shape := by
      rw [apply_eq, apply_eq]
    _ = (((r.scaledTo p.minReplicas).scaledTo q.minReplicas).shapedAs p.shape).shapedAs q.shape := by
      rw [Requirement.scaledTo_shapedAs]
    _ = (p.followedBy q).apply r := by
      rw [Requirement.scaledTo_scaledTo, Requirement.shapedAs_shapedAs, apply_eq, followedBy]

/-- A merged patch is effective if one of its parts is. -/
theorem isEffective_followedBy (p q : RequirementPatch) :
    (p.followedBy q).isEffective = (p.isEffective || q.isEffective) := by
  unfold isEffective followedBy
  by_cases hreplicas : q.minReplicas > 0
  · simp [hreplicas]
  · by_cases hshape : q.shape.isEmpty = true
    · simp [hreplicas, hshape]
    · simp [hreplicas, hshape]

theorem followedBy_self (p : RequirementPatch) : p.followedBy p = p := by
  unfold followedBy
  rw [ite_self, ite_self]

/-- A patch that sets neither replicas nor a shape. -/
theorem isEffective_eq_false_iff :
    p.isEffective = false ↔ p.minReplicas = 0 ∧ p.shape = "" := by
  unfold isEffective
  rw [Bool.or_eq_false_iff, decide_eq_false_iff_not, Bool.not_eq_false', String.isEmpty_iff]
  refine and_congr_left fun _ => ?_
  rw [gt_iff_lt, UInt32.not_lt, UInt32.le_zero_iff]

/-- A patch of a requirement that is not effective changes nothing. -/
theorem apply_of_isEffective_eq_false (h : p.isEffective = false) : p.apply r = r := by
  obtain ⟨hreplicas, hshape⟩ := isEffective_eq_false_iff.1 h
  unfold apply
  rw [hreplicas, hshape]
  rfl

end RequirementPatch

/-! ### Specifications -/

namespace Patch

variable {p q : Patch}

/-- Two patches in one: what the second sets, and otherwise what the first sets. -/
def followedBy (p q : Patch) : Patch where
  photonId := if q.photonId.isEmpty then p.photonId else q.photonId
  image := if q.image.isEmpty then p.image else q.image
  requirement := p.requirement.merge RequirementPatch.followedBy q.requirement
  apiTokens := q.apiTokens <|> p.apiTokens
  envs := q.envs <|> p.envs
  mounts := q.mounts <|> p.mounts

/-- A patch that sets no part of the specification. -/
structure SetsNothing (p : Patch) : Prop where
  photonId : p.photonId = ""
  requirement : ∀ r, p.requirement = some r → r.minReplicas = 0 ∧ r.shape = ""
  apiTokens : p.apiTokens = none
  envs : p.envs = none
  mounts : p.mounts = none

/-- A merged patch changes to the photon of the last part that names one. -/
theorem newPhotonId_followedBy (p q : Patch) :
    (p.followedBy q).newPhotonId = (q.newPhotonId <|> p.newPhotonId) := by
  unfold newPhotonId followedBy
  by_cases h : q.photonId.isEmpty = true
  · simp [h]
  · simp [h]

/-- The requirement after two patches, with nothing set by a patch that does not mention it. -/
theorem requirement_apply_apply (p q : Patch) (s : Deployment.Spec) :
    (q.apply (p.apply s)).requirement = ((p.followedBy q).apply s).requirement := by
  unfold apply followedBy
  cases p.requirement with
  | none => rw [Option.merge_none_left]
  | some r =>
    cases q.requirement with
    | none => rw [Option.merge_none_right]
    | some r' => exact r.apply_apply r' s.requirement

/-- Two patches one after the other change a specification as the two in one. -/
theorem apply_apply (p q : Patch) (s : Deployment.Spec) :
    q.apply (p.apply s) = (p.followedBy q).apply s := by
  have hphoton : q.newPhotonId.getD (p.newPhotonId.getD s.photonId) =
      (p.followedBy q).newPhotonId.getD s.photonId := by
    rw [newPhotonId_followedBy]
    cases q.newPhotonId <;> rfl
  have hlist {α : Type} (later earlier given : Option α) :
      (later <|> (earlier <|> given)) = ((later <|> earlier) <|> given) := by
    cases later <;> rfl
  have hrequirement := requirement_apply_apply p q s
  unfold apply at hrequirement ⊢
  simp only [Deployment.Spec.mk.injEq, true_and]
  exact ⟨hphoton, hrequirement, hlist .., hlist .., hlist ..⟩

theorem isEffective_followedBy (p q : Patch) :
    (p.followedBy q).isEffective = (p.isEffective || q.isEffective) := by
  have hrequirement : (p.followedBy q).requirement.any RequirementPatch.isEffective =
      (p.requirement.any RequirementPatch.isEffective ||
        q.requirement.any RequirementPatch.isEffective) :=
    Option.any_merge RequirementPatch.isEffective_followedBy
  have hlist {α : Type} (later earlier : Option α) :
      (later <|> earlier).isSome = (earlier.isSome || later.isSome) := by
    cases later <;> cases earlier <;> rfl
  unfold isEffective
  rw [newPhotonId_followedBy, hrequirement]
  simp only [followedBy, hlist]
  ac_rfl

theorem followedBy_self (p : Patch) : p.followedBy p = p := by
  have hrequirement : p.requirement.merge RequirementPatch.followedBy p.requirement =
      p.requirement := by
    cases p.requirement with
    | none => rfl
    | some r => rw [Option.merge_some_some, r.followedBy_self]
  unfold followedBy
  simp [hrequirement]

/-- A patch is not effective exactly if it sets nothing. -/
theorem isEffective_eq_false_iff : p.isEffective = false ↔ p.SetsNothing := by
  unfold isEffective newPhotonId
  simp only [Bool.or_eq_false_iff, Option.isSome_eq_false_iff, Option.isNone_iff_eq_none]
  constructor
  · rintro ⟨⟨⟨⟨hphoton, hrequirement⟩, htokens⟩, henvs⟩, hmounts⟩
    refine ⟨?_, ?_, htokens, henvs, hmounts⟩
    · simpa using hphoton
    · intro r hr
      rw [hr] at hrequirement
      exact RequirementPatch.isEffective_eq_false_iff.1 hrequirement
  · intro h
    refine ⟨⟨⟨⟨?_, ?_⟩, h.apiTokens⟩, h.envs⟩, h.mounts⟩
    · simp [h.photonId]
    · cases hr : p.requirement with
      | none => rfl
      | some r => exact RequirementPatch.isEffective_eq_false_iff.2 (h.requirement r hr)

theorem apply_of_setsNothing (h : p.SetsNothing) (s : Deployment.Spec) : p.apply s = s := by
  unfold apply newPhotonId
  rw [h.photonId, h.apiTokens, h.envs, h.mounts]
  cases hr : p.requirement with
  | none => rfl
  | some r =>
    have hkept : r.apply s.requirement = s.requirement :=
      RequirementPatch.apply_of_isEffective_eq_false
        (RequirementPatch.isEffective_eq_false_iff.2 (h.requirement r hr))
    simp [hkept]

/-- Patches compose, and the last one that sets a part wins: two patches one after the other do what
the two in one do, which changes something exactly if one of them does.  So a patch that is applied
again changes nothing more.  A patch changes nothing at all exactly if it sets nothing. -/
theorem lastWriterWins (p q : Patch) :
    (∀ s, q.apply (p.apply s) = (p.followedBy q).apply s) ∧
    ((p.followedBy q).isEffective = true ↔ p.isEffective = true ∨ q.isEffective = true) ∧
    (∀ s, p.apply (p.apply s) = p.apply s) ∧
    (p.isEffective = false ↔ p.SetsNothing) ∧
    (p.isEffective = false → ∀ s, p.apply s = s) := by
  refine ⟨apply_apply p q, ?_, ?_, isEffective_eq_false_iff, ?_⟩
  · rw [isEffective_followedBy, Bool.or_eq_true]
  · intro s
    rw [apply_apply, followedBy_self]
  · intro h s
    exact apply_of_setsNothing (isEffective_eq_false_iff.1 h) s

/-- An image is no part of the specification, and no replicas are none to set. -/
theorem lastWriterWins_imageOnly :
    (⟨"", "runner:2", some ⟨0, ""⟩, none, none, none⟩ : Patch).isEffective = false ∧
      ∀ s, (⟨"", "runner:2", some ⟨0, ""⟩, none, none, none⟩ : Patch).apply s = s :=
  ⟨rfl, (lastWriterWins _ ⟨"", "", none, none, none, none⟩).2.2.2.2 rfl⟩

end Patch

end Workplane
