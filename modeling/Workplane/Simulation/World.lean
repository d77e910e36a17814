import Workplane.Background.Routine
import Workplane.Simulation.Fault

/-!
# Worlds in virtual time

A world is a backend with faults, a clock, and background tasks.  Time stands still while anything
can run and jumps to the next moment at which something goes on when everything waits.  A call
takes no time unless it hangs; then it takes as long as its limit.

A program in the foreground goes on before the tasks that wake up at the same moment; tasks that
wake up at the same moment go on in the order in which they began to wait.
-/

namespace Workplane.Simulation

/-! ### Tasks and their calls -/

/-- Where a task goes on. -/
inductive Resumption where
  /-- With the next round, after a pause. -/
  | round (next : Routine)
  /-- Within a round, after a call was given up. -/
  | within (rest : Program (Option (Routine × Nat)))

/-- A background task that waits. -/
structure Task where
  wakesAt : Nat
  resumption : Resumption

/-- What a task does when it wakes up. -/
def Resumption.program : Resumption → Program (Option (Routine × Nat))
  | round next => next.round
  | within rest => rest

/-- Puts a task among others in the order in which they wake up, behind those that wake up at the
same moment. -/
def Task.insert (t : Task) : List Task → List Task
  | [] => [t]
  | u :: rest => if t.wakesAt < u.wakesAt then t :: u :: rest else u :: insert t rest

/-- How a call of a background task went. -/
inductive CallResult where
  | found
  | missing
  | listed (count : Nat)
  | written
  | refused
  | removed
  | absent
  | done
  | failed
  | hung
  deriving DecidableEq, Repr

/-- How a call with the given answer went. -/
def CallResult.ofAnswer : (c : Call) → c.Answer → CallResult
  | .get _, some _ => found
  | .get _, none => missing
  | .list _, entries => listed entries.length
  | .swap .., result => if result.written then written else refused
  | .delete _, true => removed
  | .delete _, false => absent
  | .putBlob .., _ | .getBlob _, _ => done

/-- A call of a background task. -/
structure LogEntry where
  time : Nat
  key : String
  kind : CallKind
  result : CallResult
  deriving DecidableEq

/-- A backend with faults, a clock and background tasks. -/
structure World where
  /-- Milliseconds since the beginning. -/
  now : Nat
  /-- What the clock shows to programs. -/
  clock : Timestamp
  backend : Backend
  faults : List Fault
  /-- In the order in which they wake up. -/
  tasks : List Task
  /-- The calls of tasks, the last one first. -/
  log : List LogEntry

namespace World

/-- A world without data, faults and tasks. -/
def initial (clock : Timestamp) : World where
  now := 0
  clock := clock
  backend := .empty
  faults := []
  tasks := []
  log := []

/-! ### Single calls -/

/-- The outcome of a call, where `gaveUp` stands for a call that hangs. -/
def call (w : World) (c : Call) : Outcome c.Answer × World :=
  let (effect, faults) := Fault.apply c w.faults
  let w := { w with faults }
  match effect with
  | some (.failure causes) => (.failed causes, w)
  | some .hang => (.gaveUp, w)
  -- Another writer comes right after the answer.
  | some effect =>
    let (answer, backend) := c.answer w.backend
    (.answered answer,
      { w with backend := { backend with keys := effect.race c answer backend.keys } })
  | none =>
    let (answer, backend) := c.answer w.backend
    (.answered answer, { w with backend })

/-- How a call went. -/
def resultOf (c : Call) : Outcome c.Answer → CallResult
  | .answered answer => .ofAnswer c answer
  | .failed _ => .failed
  | .gaveUp => .hung

/-- The outcome of a call of a background task, which is logged. -/
def loggedCall (w : World) (c : Call) : Outcome c.Answer × World :=
  let (outcome, w') := w.call c
  let entry : LogEntry := ⟨w.now, keyOf c, kindOf c, resultOf c outcome⟩
  (outcome, { w' with log := entry :: w'.log })

/-! ### Background tasks -/

/-- How far a program has come. -/
inductive Progress (α : Type) where
  | ended (result : α)
  /-- A call hangs; `rest` follows when it is given up after `limit` milliseconds. -/
  | waiting (limit : Nat) (rest : Program α)

/-- Runs a program of a task until it ends or waits. -/
def advance (w : World) : Program α → Progress α × World
  | .done result => (.ended result, w)
  | .clock next => w.advance (next w.clock)
  | .call c limit next =>
    match w.loggedCall c with
    | (.gaveUp, w) =>
      if limit = 0 then w.advance (next ⟨.gaveUp, 0⟩)
      else (.waiting limit (next ⟨.gaveUp, limit⟩), w)
    | (outcome, w) => w.advance (next ⟨outcome, 0⟩)

/-- Lets a task wait for so many milliseconds. -/
def wait (w : World) (ms : Nat) (resumption : Resumption) : World :=
  { w with tasks := Task.insert ⟨w.now + ms, resumption⟩ w.tasks }

/-- Lets a task go on until it waits again or ends. -/
def resume (w : World) (resumption : Resumption) : World :=
  match w.advance resumption.program with
  | (.ended none, w) => w
  | (.ended (some (next, pause)), w) => w.wait pause (.round next)
  | (.waiting limit rest, w) => w.wait limit (.within rest)

/-- Lets a cancelled task go on until it waits again; there is no other round for it. -/
def resumeCancelled (w : World) (resumption : Resumption) : World :=
  match w.advance resumption.program with
  | (.ended _, w) => w
  | (.waiting limit rest, w) => w.wait limit (.within rest)

/-- Takes the first task from those that wait, at the moment at which it wakes up. -/
def wake (w : World) (t : Task) (others : List Task) : World :=
  { w with tasks := others, now := max w.now t.wakesAt }

/-- Runs the tasks whose moments satisfy `due`, at most `fuel` times. -/
def runTasks (due : Nat → Bool) : Nat → World → World
  | 0, w => w
  | fuel + 1, w =>
    match w.tasks with
    | [] => w
    | t :: others =>
      if due t.wakesAt then runTasks due fuel ((w.wake t others).resume t.resumption) else w

/-- How often tasks can go on up to a moment, each after at least a millisecond. -/
def fuelUntil (w : World) (moment : Nat) : Nat :=
  (moment + 2 - w.now) * w.tasks.length

/-- Lets time pass up to a moment, and runs the tasks that wake up before it. -/
def passUntil (w : World) (moment : Nat) : World :=
  let w := w.runTasks (· < moment) (w.fuelUntil moment)
  { w with now := max w.now moment }

/-- Lets time pass up to a moment, and runs the tasks that wake up until it. -/
def passThrough (w : World) (moment : Nat) : World :=
  let w := w.runTasks (· ≤ moment) (w.fuelUntil moment)
  { w with now := max w.now moment }

/-- Starts tasks, which run until they all wait. -/
def start (w : World) (routines : List Routine) : World :=
  let w := routines.foldl (fun w r => w.wait 0 (.round r)) w
  w.passThrough w.now

/-- A round of the task has begun. -/
def isWithinRound (t : Task) : Bool :=
  match t.resumption with
  | .within _ => true
  | .round _ => false

/-- Lets cancelled tasks end their rounds, at most `fuel` times. -/
def finishTasks : Nat → World → World
  | 0, w => w
  | fuel + 1, w =>
    match w.tasks with
    | [] => w
    | t :: others => finishTasks fuel ((w.wake t others).resumeCancelled t.resumption)

/-- Cancels all tasks and lets them end: the pauses are cut short, the rounds are not.  A round
makes at most three calls and two more for each entry that was ever written. -/
def cancel (w : World) : World :=
  -- A task that pauses ends at once.
  let tasks := w.tasks.filter isWithinRound
  { w with tasks }.finishTasks (tasks.length * (2 * w.backend.keys.revision.toNat + 4))

/-! ### The foreground -/

/-- Runs a program in the foreground, while tasks run whenever it waits. -/
def perform (w : World) : Program α → α × World
  | .done result => (result, w)
  | .clock next => w.perform (next w.clock)
  | .call c limit next =>
    match w.call c with
    | (.gaveUp, w) =>
      let w := if limit = 0 then w else w.passUntil (w.now + limit)
      w.perform (next ⟨.gaveUp, limit⟩)
    | (outcome, w) => w.perform (next ⟨outcome, 0⟩)

/-- Sleeps in the foreground, unless the moment of cancellation comes first; the first component
tells whether it did not. -/
def sleep (w : World) (ms : Nat) (cancelledAt : Option Nat) : Bool × World :=
  match cancelledAt with
  | some moment =>
    if moment ≤ w.now then (false, w)
    else if moment < w.now + ms then (false, w.passThrough moment)
    else (true, w.passUntil (w.now + ms))
  | none => (true, w.passUntil (w.now + ms))

/-- Runs a routine in the foreground until it ends or is cancelled, at most `rounds` rounds of it;
the first component tells whether it ended. -/
def follow (cancelledAt : Option Nat) : Nat → World → Routine → Bool × World
  | 0, w, _ => (false, w)
  | rounds + 1, w, r =>
    match w.perform r.round with
    | (none, w) => (true, w)
    | (some (next, pause), w) =>
      match w.sleep pause cancelledAt with
      | (true, w) => follow cancelledAt rounds w next
      | (false, w) => (false, w)

/-- How many rounds can fail: as often as faults have an effect, or until the cancellation. -/
def roundsLeft (w : World) (cancelledAt : Option Nat) : Nat :=
  w.faults.foldl (fun n f => n + f.skip + f.times.getD 0) (cancelledAt.getD 0 - w.now) + 2

/-- Runs a routine in the foreground until it ends or is cancelled; the first component tells
whether it ended.  Nothing happens if the cancellation came before. -/
def await (w : World) (r : Routine) (cancelledAt : Option Nat) : Bool × World :=
  if cancelledAt.any (· ≤ w.now) then (false, w)
  else follow cancelledAt (w.roundsLeft cancelledAt) w r

end World

end Workplane.Simulation
