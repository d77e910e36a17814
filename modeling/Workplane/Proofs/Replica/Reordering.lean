import Workplane.Proofs.Replica.Latest

/-!
# Events in another order

Whoever lists the events of a replica promises no order.  The verdict does not depend on it
(`diagnose_perm`): a replica without a place to run is judged by which events there are, any other
by the latest ones of some classes, and those are the same in every arrangement of events that were
observed at different times.
-/

namespace Workplane.Readiness

variable {events events' : List Event}

theorem ofUnscheduled_perm (h : events.Perm events') :
    ofUnscheduled events = ofUnscheduled events' := by
  have hreason (reason : String) : hasReason events reason = hasReason events' reason := h.any_eq
  unfold ofUnscheduled
  rw [hreason, hreason, hreason]

section Distinct

variable (hperm : events.Perm events')
  (hne : events.Pairwise fun e f => e.observedAt ≠ f.observedAt)
include hperm hne

theorem ofWarnings_perm : ofWarnings events = ofWarnings events' := by
  have hrules : (fun r : Rule => (latestWhere r.matches events).map r.verdict) =
      fun r => (latestWhere r.matches events').map r.verdict := by
    funext r
    rw [latestWhere_perm r.matches hperm hne]
  rw [ofWarnings, ofWarnings, hrules]

theorem ofEvents_perm : ofEvents events = ofEvents events' := by
  have hlatest : latest events = latest events' := by
    rw [← latestWhere_true, ← latestWhere_true, latestWhere_perm _ hperm hne]
  rw [ofEvents, ofEvents, hlatest, ofWarnings_perm hperm hne]

end Distinct

/-- The order in which events are listed does not matter: not at all for a replica that has no place
to run, and for any other one if no two events were observed at the same time. -/
theorem diagnose_perm {conditions : List Condition} (hperm : events.Perm events')
    (h : Condition.status? conditions "PodScheduled" = some false ∨
      events.Pairwise fun e f => e.observedAt ≠ f.observedAt) :
    diagnose conditions (.ok events) = diagnose conditions (.ok events') := by
  have hunscheduled := ofUnscheduled_perm hperm
  rcases h with hscheduled | hne
  · simp only [diagnose, hscheduled, if_true, hunscheduled]
  · simp only [diagnose, hunscheduled, ofEvents_perm hperm hne]

/-- Of events that were observed at the same time, the first one that is listed counts. -/
example :
    let pulling : Event := ⟨"a", "p", "Normal", "Pulling", "", none, none⟩
    let pulled : Event := ⟨"b", "p", "Normal", "Pulled", "", none, none⟩
    diagnose [] (.ok [pulling, pulled]) ≠ diagnose [] (.ok [pulled, pulling]) := by
  decide

/-- An image that is pulled again after a failure. -/
def pulledAgain : List Event := [
  ⟨"a", "p", "Warning", "Failed", "Failed to pull image \"x\"",
    some ⟨2024, 1, 1, 0, 0, 1, 0⟩, none⟩,
  ⟨"b", "p", "Normal", "Pulling", "", none, some ⟨2024, 1, 1, 0, 0, 2, 0⟩⟩,
  ⟨"c", "p", "Normal", "Scheduled", "", none, none⟩]

theorem diagnose_perm_pulledAgain :
    pulledAgain.Perm pulledAgain.reverse ∧
      pulledAgain.Pairwise (fun e f => e.observedAt ≠ f.observedAt) ∧
      diagnose [] (.ok pulledAgain) = ⟨.inProgress, "Pulling image"⟩ ∧
      diagnose [] (.ok pulledAgain) = diagnose [] (.ok pulledAgain.reverse) := by
  have hperm : pulledAgain.Perm pulledAgain.reverse := (List.reverse_perm _).symm
  have hne : pulledAgain.Pairwise fun e f => e.observedAt ≠ f.observedAt := by decide
  exact ⟨hperm, hne, by decide, diagnose_perm hperm (Or.inr hne)⟩

end Workplane.Readiness
