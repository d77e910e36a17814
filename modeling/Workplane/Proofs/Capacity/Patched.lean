import Workplane.Deployment.Patch
import Workplane.Proofs.Capacity.Admission

/-!
# Requirements under patches

The checks of a requirement come in two parts.  What a requirement says on its own, that nothing is
negative, that either a shape or raw resources are given and that there are replicas
(`Requirement.WellFormed`), is kept by every patch (`Requirement.WellFormed.apply`).  What is left
to check afterwards is whether a shape is in the catalog and whether the total is in range, so a
patch of a valid requirement can fail in these two ways only (`Patch.validate_patched`).

The shapes of the catalog are so small that no number of replicas brings their total out of range
(`Shape.exists_scale?`).
-/

namespace Workplane

/-! ### Totals of shapes -/

namespace Double

/-- The double is a whole number below 32, as the cores and accelerators of shapes are. -/
def isCount (x : Float) : Bool :=
  match parts x with
  | .zero _ => true
  | _ => (List.range 32).any fun q => 0 < q && isExactly x q

/-- A count is a zero, or near a small positive whole number. -/
theorem isCount_cases {x : Float} (h : isCount x = true) :
    (∃ s, parts x = .zero s) ∨ ∃ q, 0 < q ∧ q < 32 ∧ Approximates x q := by
  unfold isCount at h
  split at h
  · rename_i s hs
    exact Or.inl ⟨s, hs⟩
  · obtain ⟨q, hmem, hq⟩ := List.any_eq_true.1 h
    simp only [Bool.and_eq_true, decide_eq_true_eq] at hq
    exact Or.inr ⟨q, hq.1, List.mem_range.1 hmem, approximates_of_isExactly hq.1 hq.2⟩

/-- So small a number stays finite, however often it is taken. -/
theorem isFinite_mul_toFloat {x : Float} (h : isCount x = true) (n : UInt32) :
    (x * n.toFloat).isFinite = true := by
  have hn : n.toFloat = n.toUInt64.toFloat := rfl
  rw [hn]
  rcases isCount_cases h with ⟨s, hs⟩ | ⟨q, hq, hlt, hx⟩
  · exact isFinite_zero_mul hs Numeral.isFinite_toFloat
  rcases Nat.eq_zero_or_pos n.toUInt64.toNat with hzero | hpos
  · have hparts : parts (0 : UInt64).toFloat = .zero .positive := by rfl
    obtain hzero : n.toUInt64 = 0 := UInt64.toNat_inj.1 hzero
    rw [hzero]
    exact isFinite_mul_of_parts_eq_zero hx.isFinite hparts
  · refine isFinite_mul hx (approximates_toFloat hpos) ?_
    have hcount : n.toUInt64.toNat < 2 ^ 32 := by
      rw [UInt32.toNat_toUInt64]
      exact n.toNat_lt
    have hcount' : (n.toUInt64.toNat : ℚ) ≤ 2 ^ 32 := by exact_mod_cast hcount.le
    have hq' : (q : ℚ) ≤ 32 := by exact_mod_cast hlt.le
    calc (q * n.toUInt64.toNat : ℚ) * (1 + 1 / 2 ^ 52) ^ 2
        ≤ 32 * 2 ^ 32 * (1 + 1 / 2 ^ 52) ^ 2 := by gcongr
      _ ≤ ((2 ^ 64 : Nat) : ℚ) := by norm_num
      _ ≤ (largest : ℚ) := by exact_mod_cast two_pow_le_largest

end Double

namespace Shape

variable {s : Shape}

/-- The quantities of the catalog are small whole numbers. -/
theorem isCount_of_mem_catalog : ∀ s ∈ catalog,
    Double.isCount s.resources.cpu = true ∧ Double.isCount s.resources.accelerators = true := by
  decide +kernel

/-- The memory of the catalog is far below the limit. -/
theorem memory_of_mem_catalog : ∀ s ∈ catalog,
    0 ≤ s.resources.memory.toInt ∧ s.resources.memory.toInt ≤ 352256 := by
  decide

/-- The resources of a shape can be scaled by any number of replicas. -/
theorem exists_scale? (hs : s ∈ catalog) (n : UInt32) : ∃ t, s.resources.scale? n = some t := by
  obtain ⟨hcpu, haccelerators⟩ := isCount_of_mem_catalog s hs
  obtain ⟨hnonneg, hle⟩ := memory_of_mem_catalog s hs
  have hmin := Int64.toInt_minValue
  have hmax := Int64.toInt_maxValue
  have hn : (n.toNat : Int) < 2 ^ 32 := by exact_mod_cast n.toNat_lt
  have hlow : 0 ≤ s.resources.memory.toInt * (n.toNat : Int) :=
    Int.mul_nonneg hnonneg (Int.natCast_nonneg _)
  have hhigh : s.resources.memory.toInt * (n.toNat : Int) ≤ 352256 * 2 ^ 32 :=
    Int.mul_le_mul hle hn.le (Int.natCast_nonneg _) (by decide)
  exact ⟨_, if_pos ⟨by omega, by omega, Double.isFinite_mul_toFloat hcpu n,
    Double.isFinite_mul_toFloat haccelerators n⟩⟩

end Shape

/-! ### What a patch keeps -/

namespace Requirement

variable {r : Requirement} {t : Resources} {i : Invalid}

/-- What a requirement must say on its own: nothing is negative, either a shape or raw resources are
given, and there are replicas. -/
structure WellFormed (r : Requirement) : Prop where
  nonneg : (r.cpu < 0 || r.memory < 0 || r.accelerators < 0) = false
  exclusive : (r.hasShape && r.hasRaw) = false
  given : (!r.hasShape && !r.hasRaw) = false
  replicas : r.minReplicas.getD 0 ≠ 0

/-- A requirement that was accepted is well formed. -/
theorem wellFormed_of_validate (h : r.validate = .ok ()) : r.WellFormed := by
  unfold validate at h
  split at h
  · exact nomatch h
  rename_i hnonneg
  split at h
  · exact nomatch h
  rename_i hexclusive
  split at h
  · exact nomatch h
  rename_i hgiven
  split at h
  · exact nomatch h
  split at h
  · exact nomatch h
  rename_i hreplicas
  exact ⟨Bool.eq_false_of_not_eq_true hnonneg, Bool.eq_false_of_not_eq_true hexclusive,
    Bool.eq_false_of_not_eq_true hgiven, hreplicas⟩

/-- What is left to check. -/
theorem WellFormed.validate_eq (h : r.WellFormed) :
    r.validate = if r.hasShape && (Shape.find? r.shape).isNone then .error (.unknownShape r.shape)
      else r.total.map fun _ => () := by
  unfold validate
  rw [h.nonneg, h.exclusive, h.given]
  simp only [Bool.false_eq_true, if_false, if_neg h.replicas]

/-- A total fails for nothing but its size. -/
theorem total_eq_error (h : r.total = .error i) : i = .totalTooLarge := by
  unfold total at h
  split at h
  · exact nomatch h
  · exact (Except.error.inj h).symm

/-- The total of a shape of the catalog is in range. -/
theorem exists_total_of_shape (hshape : r.hasShape = true)
    (hknown : (Shape.find? r.shape).isNone = false) : ∃ t, r.total = .ok t := by
  cases hs : Shape.find? r.shape with
  | none =>
    rw [hs] at hknown
    exact nomatch hknown
  | some s =>
    have hper : r.perReplica = s.resources := by
      unfold perReplica
      rw [if_pos hshape, hs]
    obtain ⟨t, ht⟩ :=
      Shape.exists_scale? (List.mem_of_find?_eq_some hs) (r.minReplicas.getD 0)
    exact ⟨t, total_eq_ok_iff.2 (hper ▸ ht)⟩

theorem WellFormed.withReplicas (h : r.WellFormed) (n : UInt32) :
    (if n > 0 then { r with minReplicas := some n } else r).WellFormed := by
  split
  · rename_i hn
    refine ⟨h.nonneg, h.exclusive, h.given, fun hzero => ?_⟩
    have hzero : n = 0 := hzero
    rw [hzero] at hn
    exact absurd hn (by decide)
  · exact h

/-- The requirement with a shape in the place of raw resources. -/
def inShape (r : Requirement) (shape : String) : Requirement :=
  { r with shape, cpu := 0, memory := 0, acceleratorType := "", accelerators := 0 }

theorem WellFormed.inShape (h : r.WellFormed) {shape : String} (hshape : shape.isEmpty = false) :
    (r.inShape shape).WellFormed := by
  have hnonneg : (decide ((0 : Float) < 0) || decide ((0 : Int64) < 0) ||
      decide ((0 : Float) < 0)) = false := by decide
  have hraw : (r.inShape shape).hasRaw = false := by
    show (decide ((0 : Float) > 0) && decide ((0 : Int64) > 0)) = false
    decide
  have hhas : (r.inShape shape).hasShape = true := by
    show (!shape.isEmpty) = true
    rw [hshape]
    rfl
  refine ⟨hnonneg, ?_, ?_, h.replicas⟩
  · rw [hraw, Bool.and_false]
  · rw [hhas]
    rfl

/-- A patch keeps what a requirement must say on its own. -/
theorem WellFormed.apply (h : r.WellFormed) (p : RequirementPatch) : (p.apply r).WellFormed := by
  unfold RequirementPatch.apply
  dsimp only
  split
  · exact h.withReplicas p.minReplicas
  · rename_i hshape
    exact (h.withReplicas p.minReplicas).inShape (Bool.eq_false_of_not_eq_true hshape)

end Requirement

namespace Patch

variable {p : Patch} {s : Deployment.Spec}

/-- The shape that a patch sets. -/
def shape? (p : Patch) : Option String :=
  p.requirement.bind fun r => if r.shape.isEmpty then none else some r.shape

/-- A patch keeps a requirement well formed, whether it will be accepted or not. -/
theorem wellFormed_apply (h : s.requirement.WellFormed) (p : Patch) :
    (p.apply s).requirement.WellFormed := by
  unfold apply
  dsimp only
  split
  · exact h.apply _
  · exact h

/-- A patched requirement has the shape that the patch sets, or keeps its own. -/
theorem shape_apply (p : Patch) (s : Deployment.Spec) :
    (p.apply s).requirement.shape = p.shape?.getD s.requirement.shape := by
  unfold apply shape?
  dsimp only
  cases p.requirement with
  | none => rfl
  | some r =>
    show (r.apply s.requirement).shape =
      (if r.shape.isEmpty then none else some r.shape).getD s.requirement.shape
    unfold RequirementPatch.apply
    dsimp only
    split
    · split
      · rfl
      · rfl
    · rfl

theorem ne_empty_of_shape? {shape : String} (h : p.shape? = some shape) :
    shape.isEmpty = false := by
  obtain ⟨r, -, hr⟩ := Option.bind_eq_some_iff.1 h
  split at hr
  · exact nomatch hr
  · rename_i hshape
    obtain rfl := Option.some.inj hr
    exact Bool.eq_false_of_not_eq_true hshape

/-- What the checks of a valid requirement say after a patch. -/
inductive Checked (p : Patch) (s : Deployment.Spec) : Except Invalid Unit → Prop
  | valid : Checked p s (.ok ())
  | unknownShape (shape : String) (named : p.shape? = some shape)
    (unknown : ∀ c ∈ Shape.catalog, c.name ≠ shape) :
    Checked p s (.error (.unknownShape shape))
  /-- Only raw resources can be too large. -/
  | tooLarge (unnamed : p.shape? = none) (raw : s.requirement.hasShape = false)
    (large : ∀ t, (p.apply s).requirement.total ≠ .ok t) : Checked p s (.error .totalTooLarge)

theorem checked_of_wellFormed (h : s.requirement.WellFormed)
    (hknown : (s.requirement.hasShape && (Shape.find? s.requirement.shape).isNone) = false)
    (p : Patch) : Checked p s (p.apply s).requirement.validate := by
  have hshape := p.shape_apply s
  have hhas : (p.apply s).requirement.hasShape =
      !(p.shape?.getD s.requirement.shape).isEmpty := by
    rw [← hshape]
    rfl
  rw [(wellFormed_apply h p).validate_eq]
  split
  · -- A shape that is not in the catalog is one that the patch names.
    rename_i hunknown
    cases hnew : p.shape? with
    | none =>
      rw [hhas, hshape, hnew, Option.getD_none] at hunknown
      exact absurd (hknown.symm.trans hunknown) (by decide)
    | some shape =>
      rw [hshape, hnew, Option.getD_some] at hunknown ⊢
      have hnone := Option.isNone_iff_eq_none.1 (Bool.and_eq_true_iff.1 hunknown).2
      refine .unknownShape shape hnew fun c hc hname => ?_
      exact absurd (List.find?_eq_none.1 hnone c hc) (by simp [hname])
  · rename_i hfound
    cases htotal : (p.apply s).requirement.total with
    | ok t => exact .valid
    | error i =>
      obtain rfl := Requirement.total_eq_error htotal
      have hraw : (p.apply s).requirement.hasShape = false := by
        refine Bool.eq_false_of_not_eq_true fun hshaped => ?_
        rw [hshaped, Bool.true_and] at hfound
        obtain ⟨t, ht⟩ :=
          Requirement.exists_total_of_shape hshaped (Bool.eq_false_of_not_eq_true hfound)
        exact nomatch htotal.symm.trans ht
      cases hnew : p.shape? with
      | none =>
        rw [hhas, hnew, Option.getD_none] at hraw
        exact .tooLarge hnew hraw fun t ht => nomatch htotal.symm.trans ht
      | some shape =>
        rw [hhas, hnew, Option.getD_some, ne_empty_of_shape? hnew] at hraw
        exact nomatch hraw

/-- A valid requirement has a total, whose memory is exact; after a patch it is valid, unless the
patch names a shape that is not in the catalog or the total of raw resources leaves the range.
Shapes of the catalog have an exact total for every number of replicas. -/
theorem validate_patched (s : Deployment.Spec) (valid : s.requirement.validate = .ok ()) :
    (∃ t, s.requirement.total = .ok t ∧ t.memory.toInt =
      s.requirement.perReplica.memory.toInt * (s.requirement.minReplicas.getD 0).toNat ∧
      0 ≤ t.memory.toInt ∧ t.memory.toInt ≤ Int64.maxValue.toInt) ∧
    (∀ p : Patch, Checked p s (p.apply s).requirement.validate) ∧
    ∀ shape ∈ Shape.catalog, ∀ n : UInt32, ∃ t, shape.resources.scale? n = some t ∧
      t.memory.toInt = shape.resources.memory.toInt * n.toNat := by
  refine ⟨?_, fun p => ?_, fun shape hshape n => ?_⟩
  · obtain ⟨t, ht⟩ := Requirement.exists_total_of_validate valid
    have hrange := (Requirement.WasValid.valid valid).memory_total ht
    exact ⟨t, ht, Requirement.toInt_memory_of_total ht, hrange⟩
  · have hwell := Requirement.wellFormed_of_validate valid
    refine checked_of_wellFormed hwell ?_ p
    rw [hwell.validate_eq] at valid
    split at valid
    · exact nomatch valid
    · rename_i hknown
      exact Bool.eq_false_of_not_eq_true hknown
  · obtain ⟨t, ht⟩ := Shape.exists_scale? hshape n
    exact ⟨t, ht, Resources.toInt_memory_of_scale? ht⟩

/-- The largest memory that one replica can have leaves the range with a second one. -/
theorem validate_patched_largest :
    let r : Requirement := { cpu := 1, memory := Int64.maxValue, minReplicas := some 1 }
    let s : Deployment.Spec := ⟨"d", "p", r, none, none, none⟩
    let p : Patch := ⟨"", "", some ⟨2, ""⟩, none, none, none⟩
    s.requirement.validate = .ok () ∧ (p.apply s).requirement.validate = .error .totalTooLarge ∧
      Checked p s (.error .totalTooLarge) := by
  intro r s p
  have valid : s.requirement.validate = .ok () := by decide +kernel
  have large : (p.apply s).requirement.validate = .error .totalTooLarge := by decide +kernel
  exact ⟨valid, large, large ▸ (validate_patched s valid).2.1 p⟩

end Patch

end Workplane
