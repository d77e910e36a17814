import Workplane.Background.Lifecycle
import Workplane.Service.Basic

/-!
# Background tasks of a workspace

Every kind that users own has a backup loop of its own; a terminated workspace also has the loop
that keeps its deployments at zero replicas.
-/

namespace Workplane.Background

/-- The background tasks of a workspace, in the order in which they are started. -/
def tasks (c : Workspace.Config) (backup : BackupSchedule) (lifecycle : LifecycleSchedule) :
    List Routine :=
  [backupLoop c.photons backup, backupLoop c.deployments backup, backupLoop c.secrets backup] ++
    if c.state = .terminated then [terminatedLoop c.deployments lifecycle] else []

end Workplane.Background
