import Workplane.Background.Backup
import Workplane.Deployment.Basic

/-!
# The life of a terminated workspace

In a terminated workspace no deployment keeps a replica.  The deployments are backed up first, so
that what is changed afterwards can be undone; then they are scaled to zero replicas, again and
again, since others may write them as well.
-/

namespace Workplane.Background

/-- The timing in a terminated workspace, in milliseconds. -/
structure LifecycleSchedule where
  /-- The bound on one backup attempt and on each call of a pass. -/
  attempt : Nat := 180000
  /-- The pause after a failed backup or a pass with failures. -/
  afterFailure : Nat := 300000
  /-- The pause after a pass without failures. -/
  recheck : Nat := 86400000
  deriving DecidableEq, Repr

/-- The timing of the backup that comes first. -/
def LifecycleSchedule.backup (s : LifecycleSchedule) : BackupSchedule where
  attempt := s.attempt
  afterSuccess := s.recheck
  afterFailure := s.afterFailure

/-- The deployment asks for at least one replica. -/
def asksForReplicas (d : Deployment) : Bool :=
  d.spec.requirement.minReplicas.getD 0 != 0

/-- The deployment with no replicas. -/
def withoutReplicas (d : Deployment) (now : UInt64) : Deployment :=
  let requirement := { d.spec.requirement with minReplicas := some 0 }
  { d with spec := { d.spec with requirement }, updatedAt := now }

/-- Scales the deployment with an identifier to zero replicas. -/
def scaleOneToZero (r : Repository Deployment) (id : String) : StoreProgram Unit := do
  let current ← r.getVersioned id
  -- Another writer may have been here since the deployments were listed.
  if asksForReplicas current.object then
    let now ← (Program.now : Program Timestamp)
    let _ ← r.updateAt id (withoutReplicas current.object now.millis) current.revision

/-- Scales those of a list of deployments to zero replicas that ask for any; the result tells
whether all of it succeeded. -/
def scaleAllToZero (r : Repository Deployment) : List Deployment → Program Bool
  | [] => return true
  | d :: rest =>
    if asksForReplicas d then do
      let result ← (scaleOneToZero r d.id).run
      let others ← scaleAllToZero r rest
      return result.isOk && others
    else scaleAllToZero r rest

/-- One pass over all deployments; the result tells whether every one is at zero replicas. -/
def scaleToZero (r : Repository Deployment) : Program Bool := do
  match ← r.list.run with
  | .ok deployments => scaleAllToZero r deployments
  | .error _ => return false

/-- What is done in a terminated workspace. -/
def terminatedLoop (r : Repository Deployment) (s : LifecycleSchedule) : Routine :=
  backupThen r s.backup
    (.forever (scaleToZero { r with limit := s.attempt }) s.recheck s.afterFailure)

end Workplane.Background
