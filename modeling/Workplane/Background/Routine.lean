import Workplane.Storage.Program

/-!
# Routines

A routine is what a background task does for as long as it runs: rounds of work with a pause after
each.  Cancelling a task cuts its pause short but never a round, so a routine needs no other
account of cancellation than where its pauses are.
-/

namespace Workplane

/-- Rounds of work with pauses of so many milliseconds between them. -/
inductive Routine where
  /-- Nothing more to do. -/
  | stop
  /-- The same work over and over, with a pause that depends on its success. -/
  | forever (work : Program Bool) (afterSuccess afterFailure : Nat)
  /-- Work that is repeated after each failure; its first success leads on to another routine
  without a pause. -/
  | untilSuccess (work : Program Bool) (afterFailure : Nat) (next : Routine)

namespace Routine

/-- The next round: what remains to be done and the pause before it, or `none` at the end. -/
def round : Routine → Program (Option (Routine × Nat))
  | stop => return none
  | forever work afterSuccess afterFailure => do
    let pause := if ← work then afterSuccess else afterFailure
    return some (forever work afterSuccess afterFailure, pause)
  | untilSuccess work afterFailure next => do
    if ← work then next.round
    else return some (untilSuccess work afterFailure next, afterFailure)

end Routine

end Workplane
