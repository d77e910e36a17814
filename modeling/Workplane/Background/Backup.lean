import Workplane.Background.Routine
import Workplane.Storage.Snapshot

/-!
# Periodic backups

A backup attempt is bounded as a whole and reports only whether it succeeded.  The backup loop
makes an attempt at once and then one after each pause.
-/

namespace Workplane.Background

/-- The timing of the backups of one kind, in milliseconds. -/
structure BackupSchedule where
  /-- The bound on a single attempt. -/
  attempt : Nat := 180000
  /-- The pause after a success. -/
  afterSuccess : Nat := 43200000
  /-- The pause after a failure. -/
  afterFailure : Nat := 300000
  deriving DecidableEq, Repr

variable {α : Type} [Kind α]

/-- One attempt to back up a repository; the result tells whether it succeeded. -/
def backupOnce (r : Repository α) (s : BackupSchedule) : Program Bool := do
  match ← (r.backup.run).within s.attempt with
  | some (.ok _) => return true
  | _ => return false

/-- Backs up a repository over and over. -/
def backupLoop (r : Repository α) (s : BackupSchedule) : Routine :=
  .forever (backupOnce r s) s.afterSuccess s.afterFailure

/-- Backs up a repository until an attempt succeeds, and goes on with another routine then. -/
def backupThen (r : Repository α) (s : BackupSchedule) (next : Routine) : Routine :=
  .untilSuccess (backupOnce r s) s.afterFailure next

end Workplane.Background
