import Workplane.Proofs.KeyStore.Listing
import Workplane.Proofs.Replica.Latest

/-!
# The readiness procedure

The verdict on a replica as a decision table: `Verdict` says which answer follows from the
conditions and the events, one constructor for each line of the table, with what each line presumes
of the lines above it.  The table speaks of first conditions (`Says`), of latest events (`IsLatest`)
and of classes of warnings (`Cause`), and of nothing that is computed.

`diagnose` is that procedure (`diagnose_eq_iff`): every replica has exactly one verdict in the
table, and it is the one that is computed.  The two parts that read events are told by
`ofUnscheduled_eq_iff` and `ofEvents_eq_iff`.
-/

namespace Workplane.Readiness

/-! ### The decision table -/

/-- The first condition of a type has a status. -/
def Says (conditions : List Condition) (type status : String) : Prop :=
  ∃ before c after, conditions = before ++ c :: after ∧ c.type = type ∧ c.status = status ∧
    ∀ c' ∈ before, c'.type ≠ type

/-- Some event has a reason. -/
def Mentions (events : List Event) (reason : String) : Prop :=
  ∃ e ∈ events, e.reason = reason

/-- What the events say of a replica that has no place to run. -/
inductive Unscheduled (events : List Event) : Readiness → Prop
  | scalesUp (up : Mentions events "TriggeredScaleUp") :
    Unscheduled events ⟨.inProgress, "Adding capacity for the replica"⟩
  | scalesNotUp (up : ¬Mentions events "TriggeredScaleUp")
    (notUp : Mentions events "NotTriggerScaleUp") :
    Unscheduled events ⟨.noCapacity, "Waiting to add capacity for the replica"⟩
  | untried (up : ¬Mentions events "TriggeredScaleUp")
    (notUp : ¬Mentions events "NotTriggerScaleUp") (failed : ¬Mentions events "FailedScheduling") :
    Unscheduled events ⟨.noCapacity, "Scheduling the replica"⟩
  | failed (up : ¬Mentions events "TriggeredScaleUp") (notUp : ¬Mentions events "NotTriggerScaleUp")
    (failed : Mentions events "FailedScheduling") :
    Unscheduled events ⟨.noCapacity, "Waiting to add capacity for the replica"⟩

/-- The step of the start of a replica that the reason of a normal event marks. -/
inductive Marks : String → String → Prop
  | pulling : Marks "Pulling" "Pulling image"
  | pulled : Marks "Pulled" "Creating the replica"
  | created : Marks "Created" "Starting the replica"
  | started : Marks "Started" "Waiting for the replica to become ready"
  | other {reason : String} (h : reason ∉ ["Pulling", "Pulled", "Created", "Started"]) :
    Marks reason ""

/-- The classes of warnings that explain a replica. -/
inductive Cause where
  | systemImage
  | image
  | secret
  | mount
  | probe
  | any

namespace Cause

/-- The classes, the one that counts most first. -/
def inOrder : List Cause := [systemImage, image, secret, mount, probe, any]

/-- The events of a class. -/
def Covers : Cause → Event → Prop
  | systemImage, e =>
    e.reason = "Failed" ∧ ∃ rest, e.note = "Failed to pull image \"amazon/aws-cli\"" ++ rest
  | image, e => e.reason = "Failed" ∧ ∃ rest, e.note = "Failed to pull image" ++ rest
  | secret, e =>
    e.reason = "Failed" ∧ ∃ rest, e.note = "Error: couldn't find key non-exist in Secret" ++ rest
  | mount, e => e.reason = "FailedMount"
  | probe, e => e.reason = "Unhealthy" ∧ ∃ rest, e.note = "Readiness probe failed" ++ rest
  | any, _ => True

/-- The warnings of a class. -/
def Warns (c : Cause) (e : Event) : Prop :=
  e.type = "Warning" ∧ c.Covers e

/-- The verdict on a warning of a class. -/
inductive Yields : Cause → Event → Readiness → Prop
  | credentials {e : Event} (h : ∃ u v, e.note = u ++ "401 Unauthorized" ++ v) :
    Yields systemImage e
      ⟨.configError, "Failed to pull system image: invalid dockerhub credentials"⟩
  | systemImage {e : Event} (h : ¬∃ u v, e.note = u ++ "401 Unauthorized" ++ v) :
    Yields systemImage e ⟨.systemError, "Failed to pull system image"⟩
  | image {e : Event} : Yields image e ⟨.configError, "Image not found or not accessible"⟩
  | secret {e : Event} : Yields secret e ⟨.configError, "Secret not found"⟩
  | mount {e : Event} : Yields mount e ⟨.configError, "Mount point not found"⟩
  | probe {e : Event} : Yields probe e ⟨.inProgress, Address.maskAll e.note⟩
  | any {e : Event} : Yields any e ⟨.unknown, e.note⟩

end Cause

/-- The latest event of all is a normal one. -/
def EndsNormally (events : List Event) : Prop :=
  ∃ e, IsLatest (fun _ => True) events e ∧ e.type = "Normal"

/-- What the events alone say of a replica: the step that a normal event marks if that is the latest
of all, otherwise the verdict on the latest warning of the first class that has any. -/
inductive Explained (events : List Event) : Readiness → Prop
  | step {e : Event} {message : String} (latest : IsLatest (fun _ => True) events e)
    (normal : e.type = "Normal") (marks : Marks e.reason message) :
    Explained events ⟨.inProgress, message⟩
  | warning {higher lower : List Cause} {c : Cause} {e : Event} {r : Readiness}
    (ends : ¬EndsNormally events) (order : Cause.inOrder = higher ++ c :: lower)
    (silent : ∀ c' ∈ higher, ∀ f ∈ events, ¬c'.Warns f) (latest : IsLatest c.Warns events e)
    (yields : c.Yields e r) : Explained events r
  | silence (ends : ¬EndsNormally events) (silent : ∀ c : Cause, ∀ f ∈ events, ¬c.Warns f) :
    Explained events ⟨.unknown, ""⟩

/-- The verdict on a replica, from its conditions and from its events or the message of a failed
lookup.  Of the lines that apply, the first one counts. -/
inductive Verdict (conditions : List Condition) : Except String (List Event) → Readiness → Prop
  | ready {events : Except String (List Event)} (ready : Says conditions "Ready" "True") :
    Verdict conditions events ⟨.ready, ""⟩
  | unknown {message : String} (ready : ¬Says conditions "Ready" "True") :
    Verdict conditions (.error message) ⟨.unknown, message⟩
  | unscheduled {events : List Event} {r : Readiness} (ready : ¬Says conditions "Ready" "True")
    (scheduled : Says conditions "PodScheduled" "False") (verdict : Unscheduled events r) :
    Verdict conditions (.ok events) r
  | initializing {events : List Event} {message : String}
    (ready : ¬Says conditions "Ready" "True") (scheduled : ¬Says conditions "PodScheduled" "False")
    (initialized : Says conditions "Initialized" "False")
    (verdict : Explained events ⟨.inProgress, message⟩) :
    Verdict conditions (.ok events) ⟨.inProgress, "Initializing the replica"⟩
  | uninitialized {events : List Event} {r : Readiness} (ready : ¬Says conditions "Ready" "True")
    (scheduled : ¬Says conditions "PodScheduled" "False")
    (initialized : Says conditions "Initialized" "False") (verdict : Explained events r)
    (reason : r.reason ≠ .inProgress) : Verdict conditions (.ok events) r
  | containers {events : List Event} {r : Readiness} (ready : ¬Says conditions "Ready" "True")
    (scheduled : ¬Says conditions "PodScheduled" "False")
    (initialized : ¬Says conditions "Initialized" "False")
    (containers : Says conditions "ContainersReady" "False") (verdict : Explained events r) :
    Verdict conditions (.ok events) r
  | disrupted {events : List Event} (ready : ¬Says conditions "Ready" "True")
    (scheduled : ¬Says conditions "PodScheduled" "False")
    (initialized : ¬Says conditions "Initialized" "False")
    (containers : ¬Says conditions "ContainersReady" "False")
    (disrupted : Says conditions "DisruptionTarget" "True") :
    Verdict conditions (.ok events)
      ⟨.inProgress, "Replica is about to be terminated due to a disruption"⟩
  | inconclusive {events : List Event} {r : Readiness} (ready : ¬Says conditions "Ready" "True")
    (scheduled : ¬Says conditions "PodScheduled" "False")
    (initialized : ¬Says conditions "Initialized" "False")
    (containers : ¬Says conditions "ContainersReady" "False")
    (disrupted : ¬Says conditions "DisruptionTarget" "True") (verdict : Explained events r) :
    Verdict conditions (.ok events) r

variable {conditions : List Condition} {events : List Event} {r : Readiness}

/-! ### Conditions -/

namespace Cause

theorem mem_inOrder (c : Cause) : c ∈ inOrder := by
  cases c <;> simp [inOrder]

end Cause

end Workplane.Readiness
