import Workplane.Capacity.Quota
import Workplane.Capacity.Requirement
import Workplane.Proofs.Decimal.Doubles
import Workplane.Proofs.Objects.Deployments

/-!
# Memory and quotas

What a quota leaves for a request is a difference and a sum that both stop at the ends of 64 bits.
Where they stop, they still fall on the right side of a request, because a request and what it
replaces are not negative: a request is admitted exactly if its memory fits by unbounded arithmetic
(`Quota.admits_iff_memory`).
-/

namespace Workplane

/-! ### Clamped numbers -/

theorem toInt_saturate (n : Int) :
    (saturate n).toInt = max Int64.minValue.toInt (min n Int64.maxValue.toInt) := by
  have hmin := Int64.toInt_minValue
  have hmax := Int64.toInt_maxValue
  unfold saturate
  split
  · omega
  split
  · omega
  · rw [Int64.toInt_ofInt_of_le] <;> omega

/-- A natural number that fits in 64 bits is compared with a clamped number as with the number. -/
theorem le_toInt_saturate_iff {r n : Int} (hr : 0 ≤ r) (hle : r ≤ Int64.maxValue.toInt) :
    r ≤ (saturate n).toInt ↔ r ≤ n := by
  have hmin := Int64.toInt_minValue
  have hmax := Int64.toInt_maxValue
  rw [toInt_saturate]
  omega

/-- A number that was clamped before something was added to it is as good as one that was not. -/
theorem le_toInt_saturate_saturate_add_iff {r n k : Int} (hr : 0 ≤ r)
    (hle : r ≤ Int64.maxValue.toInt) (hk : 0 ≤ k) (hk' : k ≤ Int64.maxValue.toInt) :
    r ≤ (saturate ((saturate n).toInt + k)).toInt ↔ r ≤ n + k := by
  have hmin := Int64.toInt_minValue
  have hmax := Int64.toInt_maxValue
  rw [toInt_saturate, toInt_saturate]
  -- Below the range the sum is negative, as `k` is not above the range.
  omega

/-! ### The memory of requirements -/

namespace Resources

theorem toInt_memory_of_scale? {r t : Resources} {n : UInt32} (h : r.scale? n = some t) :
    t.memory.toInt = r.memory.toInt * n.toNat := by
  unfold scale? at h
  dsimp only at h
  split at h
  · rename_i hrange
    obtain ⟨hlow, hhigh, -⟩ := hrange
    have hmin := Int64.toInt_minValue
    have hmax := Int64.toInt_maxValue
    obtain rfl := Option.some.inj h
    exact Int64.toInt_ofInt_of_le (by omega) (by omega)
  · exact nomatch h

/-- What was scaled was finite. -/
theorem isFinite_of_scale? {r t : Resources} {n : UInt32} (h : r.scale? n = some t) :
    r.cpu.isFinite = true ∧ r.accelerators.isFinite = true := by
  unfold scale? at h
  dsimp only at h
  split at h
  · rename_i hrange
    obtain ⟨-, -, hcpu, haccelerators⟩ := hrange
    exact ⟨Double.isFinite_of_mul hcpu, Double.isFinite_of_mul haccelerators⟩
  · exact nomatch h

/-- Finite resources can be scaled to nothing. -/
theorem exists_scale?_zero {r : Resources} (hcpu : r.cpu.isFinite = true)
    (haccelerators : r.accelerators.isFinite = true) : ∃ t, r.scale? 0 = some t := by
  have hzero : Double.parts (0 : UInt32).toFloat = .zero .positive := by rfl
  have hmin := Int64.toInt_minValue
  have hmax := Int64.toInt_maxValue
  have hmemory : r.memory.toInt * ((0 : UInt32).toNat : Int) = 0 := Int.mul_zero _
  refine ⟨_, if_pos ⟨?_, ?_, ?_, ?_⟩⟩
  · omega
  · omega
  · exact Double.isFinite_mul_of_parts_eq_zero hcpu hzero
  · exact Double.isFinite_mul_of_parts_eq_zero haccelerators hzero

end Resources

namespace Requirement

variable {r : Requirement} {t : Resources}

/-- The memory of all replicas together, by unbounded arithmetic. -/
def memoryAsked (r : Requirement) : Int :=
  r.perReplica.memory.toInt * (r.minReplicas.getD 0).toNat

theorem total_eq_ok_iff :
    r.total = .ok t ↔ r.perReplica.scale? (r.minReplicas.getD 0) = some t := by
  unfold total
  cases r.perReplica.scale? (r.minReplicas.getD 0) with
  | none => exact iff_of_false nofun nofun
  | some u =>
    constructor
    · exact fun h => congrArg some (Except.ok.inj h)
    · exact fun h => congrArg Except.ok (Option.some.inj h)

theorem toInt_memory_of_total (h : r.total = .ok t) : t.memory.toInt = r.memoryAsked :=
  Resources.toInt_memory_of_scale? (total_eq_ok_iff.1 h)

theorem exists_total_of_validate (h : r.validate = .ok ()) : ∃ t, r.total = .ok t := by
  unfold validate at h
  iterate 5
    split at h
    · exact nomatch h
  cases ht : r.total with
  | ok t => exact ⟨t, rfl⟩
  | error i =>
    rw [ht] at h
    exact nomatch h

/-- A valid requirement can lose its replicas. -/
theorem exists_total_withoutReplicas (h : r.validate = .ok ()) :
    ∃ t, ({ r with minReplicas := some 0 } : Requirement).total = .ok t := by
  obtain ⟨t, ht⟩ := exists_total_of_validate h
  obtain ⟨hcpu, haccelerators⟩ := Resources.isFinite_of_scale? (total_eq_ok_iff.1 ht)
  obtain ⟨u, hu⟩ := Resources.exists_scale?_zero hcpu haccelerators
  exact ⟨u, total_eq_ok_iff.2 hu⟩

/-- No shape has a negative amount of memory. -/
theorem memory_nonneg_of_mem_catalog : ∀ s ∈ Shape.catalog, 0 ≤ s.resources.memory := by
  decide

theorem memory_nonneg_of_validate (h : r.validate = .ok ()) : 0 ≤ r.perReplica.memory.toInt := by
  have hzero : (0 : Int64).toInt = 0 := rfl
  unfold perReplica
  split
  · split
    · rename_i s hs
      have hmem : s ∈ Shape.catalog := List.mem_of_find?_eq_some hs
      have hnonneg := memory_nonneg_of_mem_catalog s hmem
      rw [Int64.le_iff_toInt_le] at hnonneg
      omega
    · exact hzero.ge
  · unfold validate at h
    split at h
    · exact nomatch h
    rename_i hnegative
    simp only [Bool.or_eq_true, decide_eq_true_eq, not_or, Int64.lt_iff_toInt_lt] at hnegative
    show 0 ≤ r.memory.toInt
    omega

/-- The requirement was valid when it was written.  It may have lost its replicas since, and its
numbers may have been read back. -/
inductive WasValid : Requirement → Prop
  | valid {r : Requirement} (h : r.validate = .ok ()) : WasValid r
  | withoutReplicas {r : Requirement} (h : WasValid r) : WasValid { r with minReplicas := some 0 }
  | reread {r : Requirement} (h : WasValid r) : WasValid r.reread

theorem WasValid.memory_nonneg (h : r.WasValid) : 0 ≤ r.perReplica.memory.toInt := by
  induction h with
  | valid h => exact memory_nonneg_of_validate h
  | withoutReplicas h ih => exact ih
  | @reread r h ih =>
    have hmemory : r.reread.perReplica.memory = r.perReplica.memory := by
      unfold perReplica
      rw [show r.reread.hasShape = r.hasShape from rfl]
      split <;> rfl
    rw [hmemory]
    exact ih

/-- The memory of all replicas is in range, once it was found to be. -/
theorem WasValid.memory_total (h : r.WasValid) (ht : r.total = .ok t) :
    0 ≤ t.memory.toInt ∧ t.memory.toInt ≤ Int64.maxValue.toInt := by
  constructor
  · rw [toInt_memory_of_total ht, memoryAsked]
    exact Int.mul_nonneg h.memory_nonneg (Int.natCast_nonneg _)
  · have hlt := t.memory.toInt_lt
    have hmax := Int64.toInt_maxValue
    omega

end Requirement

/-! ### Checked specifications -/

/-- All elements of a list pass a check. -/
theorem forM_eq_ok_iff {α ε : Type} {check : α → Except ε PUnit} {as : List α} :
    as.forM check = .ok ⟨⟩ ↔ ∀ a ∈ as, check a = .ok ⟨⟩ := by
  induction as with
  | nil => exact iff_of_true rfl fun _ ha => absurd ha List.not_mem_nil
  | cons a as ih =>
    rw [List.forall_mem_cons, ← ih]
    show (check a >>= fun _ => as.forM check) = _ ↔ _
    cases check a with
    | ok u => exact (and_iff_right rfl).symm
    | error e => exact iff_of_false nofun fun h => nomatch h.1

theorem Deployment.Spec.validate_eq_ok_iff {s : Deployment.Spec} :
    s.validate = .ok () ↔ s.requirement.validate = .ok () ∧
      (∀ e ∈ s.envs.getD [], e.validate = .ok ()) ∧
      ∀ m ∈ s.mounts.getD [], m.validate = .ok () := by
  rw [← forM_eq_ok_iff, ← forM_eq_ok_iff, Deployment.Spec.validate]
  cases s.requirement.validate with
  | error i => exact iff_of_false nofun fun h => nomatch h.1
  | ok u =>
    rw [and_iff_right rfl]
    show ((s.envs.getD []).forM EnvVar.validate >>= fun _ => _) = _ ↔ _
    cases (s.envs.getD []).forM EnvVar.validate with
    | error i => exact iff_of_false nofun fun h => nomatch h.1
    | ok u => exact (and_iff_right rfl).symm

/-! ### Admission -/

namespace Quota

variable {q : Quota} {requested : Resources} {replaced : Option Resources}

/-- What counts beside memory is not above what is left. -/
def OthersFit (q : Quota) (requested : Resources) (replaced : Option Resources) : Prop :=
  requested.cpu ≤ (q.headroom replaced).cpu ∧
    requested.accelerators ≤ (q.headroom replaced).accelerators

/-- The memory that a requirement asks for is there, if what it replaces counts as free. -/
def MemoryFits (q : Quota) (new : Requirement) (old : Option Requirement) : Prop :=
  new.memoryAsked ≤ q.hard.memory.toInt - q.used.memory.toInt +
    (old.map Requirement.memoryAsked).getD 0

instance : Decidable (q.OthersFit requested replaced) :=
  inferInstanceAs (Decidable (_ ∧ _))

instance {new : Requirement} {old : Option Requirement} : Decidable (q.MemoryFits new old) :=
  inferInstanceAs (Decidable (_ ≤ _))

theorem admits_iff_memory (h : q.OthersFit requested replaced) :
    admits (some q) requested replaced = true ↔
      requested.memory.toInt ≤ (q.headroom replaced).memory.toInt := by
  unfold admits Resources.fitsWithin
  simp only [Bool.and_eq_true, decide_eq_true_eq, Int64.le_iff_toInt_le]
  exact ⟨fun hfits => hfits.1.2, fun hmemory => ⟨⟨h.1, hmemory⟩, h.2⟩⟩

/-- A new requirement is admitted exactly if its memory fits. -/
theorem admits_none_iff {new : Requirement} (hnew : new.WasValid)
    (hrequested : new.total = .ok requested) (h : q.OthersFit requested none) :
    admits (some q) requested none = true ↔ q.MemoryFits new none := by
  obtain ⟨hnonneg, hle⟩ := hnew.memory_total hrequested
  rw [admits_iff_memory h]
  show _ ≤ (saturate (q.hard.memory.toInt - q.used.memory.toInt)).toInt ↔ _
  rw [le_toInt_saturate_iff hnonneg hle, Requirement.toInt_memory_of_total hrequested, MemoryFits]
  simp

/-- A requirement that takes the place of another one is admitted exactly if its memory fits. -/
theorem admits_some_iff {new old : Requirement} {free : Resources} (hnew : new.WasValid)
    (hold : old.WasValid) (hrequested : new.total = .ok requested) (hfree : old.total = .ok free)
    (h : q.OthersFit requested (some free)) :
    admits (some q) requested (some free) = true ↔ q.MemoryFits new (some old) := by
  obtain ⟨hnonneg, hle⟩ := hnew.memory_total hrequested
  obtain ⟨hnonneg', hle'⟩ := hold.memory_total hfree
  rw [admits_iff_memory h]
  show _ ≤ (saturate ((saturate (q.hard.memory.toInt - q.used.memory.toInt)).toInt +
    free.memory.toInt)).toInt ↔ _
  rw [le_toInt_saturate_saturate_add_iff hnonneg hle hnonneg' hle',
    Requirement.toInt_memory_of_total hrequested, Requirement.toInt_memory_of_total hfree]
  rfl

/-- Far below what is used, a quota admits nothing, even in place of the largest requirement. -/
example : admits (some ⟨"w", ⟨1, Int64.minValue, 0⟩, ⟨0, Int64.maxValue, 0⟩⟩) ⟨1, 0, 0⟩
    (some ⟨1, Int64.maxValue, 0⟩) = false := by
  decide +kernel

/-- A requirement that stays as it is fits exactly if no more is used than there is. -/
theorem memoryFits_self_iff (q : Quota) (r : Requirement) :
    q.MemoryFits r (some r) ↔ q.used.memory ≤ q.hard.memory := by
  rw [Int64.le_iff_toInt_le]
  show r.memoryAsked ≤ _ - _ + r.memoryAsked ↔ _
  omega

end Quota

end Workplane
