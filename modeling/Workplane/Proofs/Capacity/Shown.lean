import Workplane.Proofs.Capacity.Admission

/-!
# Quotas as they are shown

Users see a quota without the system overhead, with zero instead of anything below it on either
side.  Flooring the ceiling can only lower it to zero, where it leaves nothing to ask for, and
flooring the consumption can only raise it; so what is shown as free is never more than what a
request is measured against (`Quota.memoryShown_le_memoryLeft`).  Where neither side is floored,
both are the same (`Quota.memoryShown_eq_memoryLeft`).
-/

namespace Workplane.Quota

variable {q : Quota}

/-- The memory that is shown as free, by unbounded arithmetic. -/
def memoryShown (q : Quota) : Int :=
  q.withoutOverhead.hard.memory.toInt - q.withoutOverhead.used.memory.toInt

/-- The memory that a new request is measured against. -/
def memoryLeft (q : Quota) : Int :=
  (q.headroom none).memory.toInt

/-- What is shown of an amount of memory: what it exceeds the overhead by. -/
theorem toInt_memory_subFloored (r : Resources) :
    (r.subFloored systemOverhead).memory.toInt = max 0 (r.memory.toInt - 4096) := by
  have hmin := Int64.toInt_minValue
  have hmax := Int64.toInt_maxValue
  have hlt := r.memory.toInt_lt
  have hoverhead : systemOverhead.memory.toInt = 4096 := rfl
  show (saturate (max 0 (r.memory.toInt - systemOverhead.memory.toInt))).toInt = _
  rw [saturate_toInt (by omega) (by omega), hoverhead]

theorem memoryShown_eq (q : Quota) : q.memoryShown =
    max 0 (q.hard.memory.toInt - 4096) - max 0 (q.used.memory.toInt - 4096) := by
  show (q.hard.subFloored systemOverhead).memory.toInt -
    (q.used.subFloored systemOverhead).memory.toInt = _
  rw [toInt_memory_subFloored, toInt_memory_subFloored]

theorem memoryLeft_eq (q : Quota) : q.memoryLeft = max Int64.minValue.toInt
    (min (q.hard.memory.toInt - q.used.memory.toInt) Int64.maxValue.toInt) :=
  toInt_saturate _

/-- What is shown as free is left, wherever it is anything at all. -/
theorem memoryShown_le_memoryLeft (h : 0 < q.memoryShown) : q.memoryShown ≤ q.memoryLeft := by
  have hmin := Int64.toInt_minValue
  have hmax := Int64.toInt_maxValue
  have hhard := q.hard.memory.toInt_lt
  rw [memoryShown_eq] at h ⊢
  rw [memoryLeft_eq]
  -- The ceiling is above the overhead, or nothing would be shown as free.
  have hceiling : 4096 < q.hard.memory.toInt := by omega
  omega

/-- Where both sides cover the overhead, exactly what is left is shown. -/
theorem memoryShown_eq_memoryLeft (hhard : 4096 ≤ q.hard.memory.toInt)
    (hused : 4096 ≤ q.used.memory.toInt) : q.memoryShown = q.memoryLeft := by
  have hmin := Int64.toInt_minValue
  have hmax := Int64.toInt_maxValue
  have hhard' := q.hard.memory.toInt_lt
  have hused' := q.used.memory.toInt_lt
  rw [memoryShown_eq, memoryLeft_eq]
  omega

/-- A request for memory that is shown as free passes the comparison of memory, so cpu and
accelerators alone decide on it; and where the ceiling and the consumption both cover the system
overhead, the memory that is shown as free is the memory that requests are measured against. -/
theorem shown_isFree (q : Quota) :
    (∀ requested : Resources, 1 ≤ requested.memory.toInt →
      requested.memory.toInt ≤ q.memoryShown →
      requested.memory ≤ (q.headroom none).memory ∧
        (admits (some q) requested none = true ↔ q.OthersFit requested none)) ∧
    (systemOverhead.memory ≤ q.hard.memory → systemOverhead.memory ≤ q.used.memory →
      q.memoryShown = q.memoryLeft) := by
  constructor
  · intro requested hone hshown
    have hleft : requested.memory.toInt ≤ q.memoryLeft := by
      have := memoryShown_le_memoryLeft (q := q) (by omega)
      omega
    refine ⟨Int64.le_iff_toInt_le.2 hleft, fun hadmits => ?_, fun hothers => ?_⟩
    · unfold admits Resources.fitsWithin at hadmits
      simp only [Bool.and_eq_true, decide_eq_true_eq] at hadmits
      exact ⟨hadmits.1.1, hadmits.2⟩
    · exact (admits_iff_memory hothers).2 hleft
  · intro hhard hused
    rw [Int64.le_iff_toInt_le] at hhard hused
    exact memoryShown_eq_memoryLeft hhard hused

/-- Nothing is used, so no overhead is taken off the consumption: less is shown than is left. -/
theorem shown_isFree_unused :
    let q : Quota := ⟨"w", ⟨8, 8192, 0⟩, ⟨0, 0, 0⟩⟩
    q.memoryShown = 4096 ∧ q.memoryLeft = 8192 ∧
      admits (some q) ⟨1, 4096, 0⟩ none = true := by
  intro q
  have hothers : q.OthersFit ⟨1, 4096, 0⟩ none := by
    constructor <;> decide +kernel
  have hshown : q.memoryShown = 4096 := by decide +kernel
  have hleft : q.memoryLeft = 8192 := by decide +kernel
  have hrequested : (4096 : Int64).toInt = 4096 := by decide
  obtain ⟨-, hadmits⟩ := (shown_isFree q).1 ⟨1, 4096, 0⟩ (by decide) (hshown ▸ hrequested.le)
  exact ⟨hshown, hleft, hadmits.2 hothers⟩

end Workplane.Quota
