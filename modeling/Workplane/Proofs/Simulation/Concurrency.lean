import Mathlib.Data.List.Forall2
import Mathlib.Data.List.Perm.Basic
import Workplane.Proofs.Program.Alone
import Workplane.Proofs.Simulation.Worlds
import Workplane.Proofs.Workspace.Frozen

/-!
# Worlds are concurrent runs

A world in which calls may fail or hang, but in which nobody else writes (`World.Loses`), comes
about by a concurrent run of its tasks and of what is run in the foreground: every operation on it
goes on with such a run (`World.Along`).  So what is proved of all concurrent runs is true in
worlds; for the background tasks of a workspace and the requests that are handled beside them this
is `World.exists_concurrent_handleAll`.  Where there are no tasks, a program in the foreground runs
alone (`World.alone_perform`).

An operation may let any of the tasks go on, and nothing else.  So each of the lemmas says that it
leaves the other processes where they are, which carries a program in the foreground over the time
that it waits.
-/

namespace Workplane

variable {ι α β κ : Type}

/-- A program that is the only process runs alone. -/
theorem Concurrent.exists_alone {start now : Unit → Process α} {b : Backend} {t : Trace Unit}
    (h : Concurrent start b t now) {p : Program α} (hstart : start () = .program p) :
    ∃ q past, now () = .program q ∧ p.Alone b past (b.replay t) q := by
  induction h with
  | nil => exact ⟨p, [], hstart, .start⟩
  | @move t now run i m q step true_move ih =>
    obtain ⟨rest, past, hrest, halone⟩ := ih
    rw [show now i = .program rest from hrest] at step
    obtain ⟨step⟩ := step
    rw [Trace.replay_append]
    exact ⟨_, _, Function.update_self .., halone.move m _ step true_move⟩
  | @turn t now run i q turn ih =>
    obtain ⟨rest, past, hrest, -⟩ := ih
    rw [show now i = .program rest from hrest] at turn
    exact nomatch turn

namespace Simulation

open Workspace (Config processes)
open Background (BackupSchedule LifecycleSchedule)

/-! ### Faults that lose calls -/

/-- Nothing happens to a call but that it may be lost. -/
inductive IsLoss : Option Effect → Prop
  | none : IsLoss none
  | failure (causes : List String) : IsLoss (some (.failure causes))
  | hang : IsLoss (some .hang)

namespace Fault

/-- The fault makes calls fail or hang, and lets nobody else write. -/
def Loses (f : Fault) : Prop :=
  IsLoss (some f.effect)

/-- Faults that lose calls stay such faults. -/
theorem apply_loses {faults : List Fault} (h : ∀ f ∈ faults, f.Loses) (x : Call) :
    IsLoss (apply x faults).1 ∧ ∀ f ∈ (apply x faults).2, f.Loses := by
  induction faults with
  | nil => exact ⟨.none, h⟩
  | cons f rest ih =>
    obtain ⟨hf, hall⟩ := List.forall_mem_cons.1 h
    obtain ⟨hloss, hrest⟩ := ih hall
    unfold apply
    split
    · exact ⟨hloss, List.forall_mem_cons.2 ⟨hf, hrest⟩⟩
    · split
      · exact ⟨hloss, List.forall_mem_cons.2 ⟨hf, hrest⟩⟩
      · exact ⟨hf, List.forall_mem_cons.2 ⟨hf, hall⟩⟩

end Fault

/-- What is left to do when a task goes on. -/
def Resumption.process : Resumption → Process α
  | round next => .pause next
  | within rest => .round rest

/-- What is left of a program. -/
def World.Progress.rest : World.Progress α → Program α
  | ended result => .done result
  | waiting _ rest => rest

namespace World

variable {w : World} {x : Call}

/-- The faults of the world only lose calls. -/
def Loses (w : World) : Prop :=
  ∀ f ∈ w.faults, f.Loses

/-- A call has the answer and the effect that it has on the backend, or neither, and leads to
another world. -/
structure Moves (w : World) (x : Call) (r : Outcome x.Answer × World) : Prop where
  isTrue : ∀ took, (Move.call x ⟨r.1, took⟩).IsTrue w.backend
  after : ∀ took, (Move.call x ⟨r.1, took⟩).after w.backend = r.2.backend
  loses : r.2.Loses
  tasks : r.2.tasks = w.tasks

/-- A call in a world whose faults only lose calls is a move that tells the truth. -/
theorem Loses.moves (h : w.Loses) (x : Call) : w.Moves x (w.call x) := by
  obtain ⟨hloss, hloses⟩ := Fault.apply_loses h x
  unfold call
  generalize Fault.apply x w.faults = applied at hloss hloses
  obtain ⟨effect, faults⟩ := applied
  cases hloss with
  | none => exact ⟨fun _ _ heq => (Outcome.answered.inj heq).symm, fun _ => rfl, hloses, rfl⟩
  | failure causes => exact ⟨fun _ => nofun, fun _ => rfl, hloses, rfl⟩
  | hang => exact ⟨fun _ => nofun, fun _ => rfl, hloses, rfl⟩

theorem Loses.moves_loggedCall (h : w.Loses) (x : Call) : w.Moves x (w.loggedCall x) := by
  obtain ⟨htrue, hafter, hloses, htasks⟩ := h.moves x
  exact ⟨htrue, hafter, hloses, htasks⟩

/-! ### Worlds along a run -/

section Along

/-- The tasks that are left are still processes of the run. -/
theorem exists_sublist_filter {now : ι → Process α} {is : List ι} {ts : List Task} (p : Task → Bool)
    (h : List.Forall₂ (fun t i => now i = t.resumption.process) ts is) :
    ∃ js, js.Sublist is ∧
      List.Forall₂ (fun t i => now i = t.resumption.process) (ts.filter p) js := by
  induction h with
  | nil => exact ⟨[], .slnil, .nil⟩
  | @cons t i ts is hfirst _ ih =>
    obtain ⟨js, hsub, hrest⟩ := ih
    cases hp : p t with
    | true =>
      rw [List.filter_cons_of_pos hp]
      exact ⟨i :: js, hsub.cons_cons i, .cons hfirst hrest⟩
    | false =>
      rw [List.filter_cons_of_neg (hp ▸ Bool.false_ne_true)]
      exact ⟨js, hsub.cons i, hrest⟩

variable [DecidableEq ι] {start now : ι → Process α} {b : Backend} {is js : List ι} {i : ι}

/-- A concurrent run has led to the backend of a world, whose tasks are some of its processes. -/
structure Along (start : ι → Process α) (b : Backend) (w : World) (now : ι → Process α)
    (is : List ι) : Prop where
  loses : w.Loses
  run : ∃ t, Concurrent start b t now ∧ b.replay t = w.backend
  nodup : is.Nodup
  waiting : List.Forall₂ (fun t i => now i = t.resumption.process) w.tasks is

/-- The run goes on to a world with processes `is` at most, and with no other ones. -/
def GoesOn (start : ι → Process α) (b : Backend) (now : ι → Process α) (is : List ι) (w : World) :
    Prop :=
  ∃ now' js, Along start b w now' js ∧ js ⊆ is ∧ ∀ j, j ∉ is → now' j = now j

/-- A world that goes along goes on. -/
theorem Along.goesOn (h : Along start b w now is) : GoesOn start b now is w :=
  ⟨now, is, h, List.Subset.refl _, fun _ _ => rfl⟩

theorem GoesOn.trans {w' : World} (h : GoesOn start b now is w)
    (next : ∀ now' js, Along start b w now' js → GoesOn start b now' js w') :
    GoesOn start b now is w' := by
  obtain ⟨now', js, hjs, hsub, hkept⟩ := h
  obtain ⟨now'', ks, hks, hsub', hkept'⟩ := next now' js hjs
  refine ⟨now'', ks, hks, List.Subset.trans hsub' hsub, fun j hj => ?_⟩
  exact (hkept' j fun hmem => hj (hsub hmem)).trans (hkept j hj)

/-! #### Single steps -/

/-- A process that is not waiting may move while the others wait. -/
theorem waiting_update {ts : List Task} (hi : i ∉ is) (q : Process α)
    (h : List.Forall₂ (fun t i => now i = t.resumption.process) ts is) :
    List.Forall₂ (fun t j => Function.update now i q j = t.resumption.process) ts is := by
  induction h with
  | nil => exact .nil
  | cons hfirst _ ih =>
    obtain ⟨hne, hrest⟩ := not_or.1 (mt List.mem_cons.2 hi)
    exact .cons ((Function.update_of_ne (Ne.symm hne) q now).trans hfirst) (ih hrest)

/-- A process that is none of the tasks makes a call. -/
theorem Along.move (h : Along start b w now is) (hi : i ∉ is) {r : Outcome x.Answer × World}
    (hmoves : w.Moves x r) {took : Nat} {q : Process α}
    (hstep : (now i).Step (.call x ⟨r.1, took⟩) q) :
    Along start b r.2 (Function.update now i q) is := by
  obtain ⟨t, hrun, hbackend⟩ := h.run
  refine ⟨hmoves.loses, ⟨_, hrun.move i _ q hstep (hbackend ▸ hmoves.isTrue took), ?_⟩, h.nodup, ?_⟩
  · rw [Trace.replay_append, hbackend]
    exact hmoves.after took
  · rw [hmoves.tasks]
    exact waiting_update hi q h.waiting

/-- A process that is none of the tasks looks at the clock. -/
theorem Along.look (h : Along start b w now is) (hi : i ∉ is) {clock : Timestamp} {q : Process α}
    (hstep : (now i).Step (.clock clock) q) : Along start b w (Function.update now i q) is := by
  obtain ⟨t, hrun, hbackend⟩ := h.run
  refine ⟨h.loses, ⟨_, hrun.move i _ q hstep trivial, ?_⟩, h.nodup, waiting_update hi q h.waiting⟩
  rw [Trace.replay_append, hbackend]
  rfl

/-- A process that is none of the tasks goes on without a move. -/
theorem Along.turn (h : Along start b w now is) (hi : i ∉ is) {q : Process α}
    (hturn : (now i).Turn q) : Along start b w (Function.update now i q) is := by
  obtain ⟨t, hrun, hbackend⟩ := h.run
  exact ⟨h.loses, ⟨t, hrun.turn i q hturn, hbackend⟩, h.nodup, waiting_update hi q h.waiting⟩

/-- A process becomes a task. -/
theorem Along.wait (h : Along start b w now is) (hi : i ∉ is) {r : Resumption}
    (hnow : now i = r.process) (ms : Nat) :
    ∃ js, js.Perm (i :: is) ∧ Along start b (w.wait ms r) now js := by
  have hall : List.Forall₂ (fun t i => now i = t.resumption.process)
      (⟨w.now + ms, r⟩ :: w.tasks) (i :: is) := .cons hnow h.waiting
  obtain ⟨js, hwaiting, hperm⟩ :=
    List.perm_comp_forall₂ (Task.perm_insert ⟨w.now + ms, r⟩ w.tasks) hall
  have hnodup : js.Nodup := hperm.nodup_iff.2 (List.nodup_cons.2 ⟨hi, h.nodup⟩)
  exact ⟨js, hperm, h.loses, h.run, hnodup, hwaiting⟩

/-! #### Tasks -/

/-- A task makes calls until it ends or waits. -/
theorem Along.advance {p : Program (Option (Routine × Nat))} (h : Along start b w now is)
    (hi : i ∉ is) (hnow : now i = .round p) :
    Along start b (w.advance p).2 (Function.update now i (.round (w.advance p).1.rest)) is := by
  induction p generalizing w now with
  | done result =>
    have hsame : Function.update now i (.round (.done result)) = now := by
      rw [← hnow, Function.update_eq_self]
    show Along start b w (Function.update now i (.round (.done result))) is
    rw [hsame]
    exact h
  | clock next ih =>
    have hstep : (now i).Step (.clock w.clock) (.round (next w.clock)) :=
      hnow ▸ .round (.clock next w.clock)
    have hrest := ih w.clock (h.look hi hstep) (Function.update_self ..)
    rw [Function.update_idem] at hrest
    exact hrest
  | call x limit next ih =>
    have hmoves := h.loses.moves_loggedCall x
    have hstep (took : Nat) : (now i).Step (.call x ⟨(w.loggedCall x).1, took⟩)
        (.round (next ⟨(w.loggedCall x).1, took⟩)) := hnow ▸ .round (.call x limit next _)
    have hrest (took : Nat) := ih _ (h.move hi hmoves (hstep took)) (Function.update_self ..)
    have hgiven := h.move hi hmoves (hstep limit)
    unfold World.advance
    generalize w.loggedCall x = r at hrest hgiven
    obtain ⟨outcome, w'⟩ := r
    simp only [Function.update_idem] at hrest
    cases outcome with
    | answered answer => exact hrest 0
    | failed causes => exact hrest 0
    | gaveUp =>
      dsimp only
      split
      · exact hrest 0
      · exact hgiven

/-- A task that goes on is in a round. -/
theorem Along.begin {r : Resumption} (h : Along start b w now is) (hi : i ∉ is)
    (hnow : now i = r.process) :
    Along start b w (Function.update now i (.round r.program)) is := by
  cases r with
  | round next => exact h.turn hi (hnow ▸ .wake next)
  | within rest =>
    have hsame : Function.update now i (.round rest) = now := by
      rw [show Process.round rest = now i from hnow.symm, Function.update_eq_self]
    show Along start b w (Function.update now i (.round rest)) is
    rw [hsame]
    exact h

/-- A task that goes on comes to the end of what it can do now. -/
theorem Along.round {r : Resumption} (h : Along start b w now is) (hi : i ∉ is)
    (hnow : now i = r.process) :
    Along start b (w.advance r.program).2
      (Function.update now i (.round (w.advance r.program).1.rest)) is := by
  have hround := (h.begin hi hnow).advance hi (Function.update_self ..)
  rwa [Function.update_idem] at hround

theorem GoesOn.of_update {q : Process α}
    (h : GoesOn start b (Function.update now i q) (i :: is) w) :
    GoesOn start b now (i :: is) w := by
  obtain ⟨now', js, hjs, hsub, hkept⟩ := h
  refine ⟨now', js, hjs, hsub, fun j hj => (hkept j hj).trans ?_⟩
  exact Function.update_of_ne (fun heq : j = i => hj (heq ▸ .head is)) q now

/-- A task that has ended its round is no longer one of the tasks. -/
theorem Along.goesOn_cons (h : Along start b w now is) (i : ι) : GoesOn start b now (i :: is) w :=
  ⟨now, is, h, List.subset_cons_self i is, fun _ _ => rfl⟩

/-- A task that waits is a process between two of its moves. -/
theorem Along.goesOn_wait (h : Along start b w now is) (hi : i ∉ is) {r : Resumption}
    (hnow : now i = r.process) (ms : Nat) : GoesOn start b now (i :: is) (w.wait ms r) := by
  obtain ⟨js, hperm, hjs⟩ := h.wait hi hnow ms
  exact ⟨now, js, hjs, hperm.subset, fun _ _ => rfl⟩

/-- A task that is resumed makes the moves of its process. -/
theorem Along.resume {r : Resumption} (h : Along start b w now is) (hi : i ∉ is)
    (hnow : now i = r.process) : GoesOn start b now (i :: is) (w.resume r) := by
  have hround := h.round hi hnow
  unfold World.resume
  generalize w.advance r.program = result at hround
  obtain ⟨progress, w'⟩ := result
  refine GoesOn.of_update (q := .round progress.rest) ?_
  cases progress with
  | waiting limit rest => exact hround.goesOn_wait hi (Function.update_self ..) limit
  | ended result =>
    cases result with
    | none => exact hround.goesOn_cons i
    | some next =>
      obtain ⟨next, pause⟩ := next
      have hturn : (Function.update now i (.round (.done (some (next, pause)))) i).Turn
          (.pause next) := by
        rw [Function.update_self]
        exact .rest next pause
      exact ((hround.turn hi hturn).goesOn_wait hi (Function.update_self ..) pause).of_update

theorem Along.resumeCancelled {r : Resumption} (h : Along start b w now is) (hi : i ∉ is)
    (hnow : now i = r.process) : GoesOn start b now (i :: is) (w.resumeCancelled r) := by
  have hround := h.round hi hnow
  unfold World.resumeCancelled
  generalize w.advance r.program = result at hround
  obtain ⟨progress, w'⟩ := result
  refine GoesOn.of_update (q := .round progress.rest) ?_
  cases progress with
  | waiting limit rest => exact hround.goesOn_wait hi (Function.update_self ..) limit
  | ended result => exact hround.goesOn_cons i

/-- The first task wakes up, and is none of the others. -/
theorem Along.wake {t : Task} {others : List Task} (h : Along start b w now is)
    (htasks : w.tasks = t :: others) :
    ∃ i js, is = i :: js ∧ i ∉ js ∧ now i = t.resumption.process ∧
      Along start b (w.wake t others) now js := by
  obtain ⟨hloses, hrun, hnodup, hwaiting⟩ := h
  rw [htasks] at hwaiting
  obtain ⟨i, js, hnow, hrest, rfl⟩ := List.forall₂_cons_left_iff.1 hwaiting
  obtain ⟨hi, hjs⟩ := List.nodup_cons.1 hnodup
  exact ⟨i, js, rfl, hi, hnow, hloses, hrun, hjs, hrest⟩

/-! #### Time -/

/-- Running the due tasks interleaves their processes. -/
theorem Along.runTasks (h : Along start b w now is) (due : Nat → Bool) (fuel : Nat) :
    GoesOn start b now is (w.runTasks due fuel) := by
  induction fuel generalizing w now is with
  | zero => exact h.goesOn
  | succ fuel ih =>
    unfold World.runTasks
    split
    · exact h.goesOn
    · rename_i t others htasks
      split
      · obtain ⟨i, js, rfl, hi, hnow, hwake⟩ := h.wake htasks
        exact (hwake.resume hi hnow).trans fun now' ks hks => ih hks
      · exact h.goesOn

theorem Along.passUntil (h : Along start b w now is) (moment : Nat) :
    GoesOn start b now is (w.passUntil moment) := by
  obtain ⟨now', js, ⟨hloses, hrun, hnodup, hwaiting⟩, hrest⟩ :=
    h.runTasks (· < moment) (w.fuelUntil moment)
  exact ⟨now', js, ⟨hloses, hrun, hnodup, hwaiting⟩, hrest⟩

theorem Along.passThrough (h : Along start b w now is) (moment : Nat) :
    GoesOn start b now is (w.passThrough moment) := by
  obtain ⟨now', js, ⟨hloses, hrun, hnodup, hwaiting⟩, hrest⟩ :=
    h.runTasks (· ≤ moment) (w.fuelUntil moment)
  exact ⟨now', js, ⟨hloses, hrun, hnodup, hwaiting⟩, hrest⟩

theorem Along.finishTasks (h : Along start b w now is) (fuel : Nat) :
    GoesOn start b now is (w.finishTasks fuel) := by
  induction fuel generalizing w now is with
  | zero => exact h.goesOn
  | succ fuel ih =>
    unfold World.finishTasks
    split
    · exact h.goesOn
    · rename_i t others htasks
      obtain ⟨i, js, rfl, hi, hnow, hwake⟩ := h.wake htasks
      exact (hwake.resumeCancelled hi hnow).trans fun now' ks hks => ih hks

/-- The tasks are cancelled. -/
theorem Along.cancel (h : Along start b w now is) : GoesOn start b now is w.cancel := by
  obtain ⟨js, hsub, hwaiting⟩ := exists_sublist_filter isWithinRound h.waiting
  have hcut : Along start b { w with tasks := w.tasks.filter isWithinRound } now js :=
    ⟨h.loses, h.run, hsub.nodup h.nodup, hwaiting⟩
  obtain ⟨now', ks, hks, hsub', hkept⟩ := hcut.finishTasks _
  refine ⟨now', ks, hks, List.Subset.trans hsub' hsub.subset, fun j hj => hkept j ?_⟩
  exact fun hmem => hj (hsub.subset hmem)

/-- Routines are started. -/
theorem Along.starts {routines : List Routine} (h : Along start b w now is)
    (hnodup : (js ++ is).Nodup) (hjs : List.Forall₂ (fun i r => now i = .pause r) js routines) :
    GoesOn start b now (js ++ is) (w.start routines) := by
  suffices hwait : ∃ ks, ks.Perm (js ++ is) ∧
      Along start b (routines.foldl (fun w r => w.wait 0 (.round r)) w) now ks by
    obtain ⟨ks, hperm, hks⟩ := hwait
    obtain ⟨now', ls, hls, hsub, hkept⟩ := hks.passThrough
      (routines.foldl (fun w r => w.wait 0 (.round r)) w).now
    refine ⟨now', ls, hls, List.Subset.trans hsub hperm.subset, fun j hj => hkept j ?_⟩
    exact fun hmem => hj (hperm.subset hmem)
  induction hjs generalizing w is with
  | nil => exact ⟨is, .refl _, h⟩
  | @cons i r js routines hnow _ ih =>
    obtain ⟨hi, hrest⟩ := List.nodup_cons.1 hnodup
    obtain ⟨ks, hperm, hks⟩ := h.wait (fun hmem => hi (List.mem_append_right js hmem))
      (r := .round r) hnow 0
    have hall := (hperm.append_left js).trans List.perm_middle
    obtain ⟨ls, hperm', hls⟩ := ih hks (hall.nodup_iff.2 hnodup)
    exact ⟨ls, hperm'.trans hall, hls⟩

/-! #### The foreground -/

/-- The run goes on to a world in which process `i`, which is none of the tasks, stands where `Q`
says. -/
def Brings (start : ι → Process α) (b : Backend) (now : ι → Process α) (is : List ι) (i : ι)
    (Q : Process α → Prop) (w : World) : Prop :=
  ∃ now' js, Along start b w now' js ∧ js ⊆ is ∧ Q (now' i) ∧ ∀ j, j ∉ i :: is → now' j = now j

theorem GoesOn.brings (h : GoesOn start b now is w) (hi : i ∉ is) (Q : Process α → Prop)
    (hQ : Q (now i)) : Brings start b now is i Q w := by
  obtain ⟨now', js, hjs, hsub, hkept⟩ := h
  exact ⟨now', js, hjs, hsub, (hkept i hi).symm ▸ hQ, fun j hj => hkept j (mt (.tail i) hj)⟩

/-- What a process is brought to, it may be brought on from. -/
theorem Brings.trans {Q Q' : Process α → Prop} {w' : World} (h : Brings start b now is i Q w)
    (hi : i ∉ is) (next : ∀ now' js, i ∉ js → Q (now' i) → Along start b w now' js →
      Brings start b now' js i Q' w') : Brings start b now is i Q' w' := by
  obtain ⟨now', js, hjs, hsub, hQ, hkept⟩ := h
  obtain ⟨now'', ks, hks, hsub', hQ', hkept'⟩ := next now' js (mt (@hsub i) hi) hQ hjs
  refine ⟨now'', ks, hks, List.Subset.trans hsub' hsub, hQ', fun j hj => ?_⟩
  exact (hkept' j (mt (@List.cons_subset_cons _ _ _ i hsub j) hj)).trans (hkept j hj)

theorem Brings.of_update {Q : Process α → Prop} {q : Process α}
    (h : Brings start b (Function.update now i q) is i Q w) : Brings start b now is i Q w := by
  obtain ⟨now', js, hjs, hsub, hQ, hkept⟩ := h
  refine ⟨now', js, hjs, hsub, hQ, fun j hj => (hkept j hj).trans ?_⟩
  exact Function.update_of_ne (List.ne_of_not_mem_cons hj) q now

/-- A program in the foreground goes on as a process that is none of the tasks; `f` says what kind
of process it is. -/
theorem Along.perform {f : Program β → Process α} (hf : ∀ {p m q}, p.Step m q → (f p).Step m (f q))
    {p : Program β} (h : Along start b w now is) (hi : i ∉ is) (hnow : now i = f p) :
    Brings start b now is i (· = f (.done (w.perform p).1)) (w.perform p).2 := by
  induction p generalizing w now is with
  | done result => exact h.goesOn.brings hi _ hnow
  | clock next ih =>
    have hstep : (now i).Step (.clock w.clock) (f (next w.clock)) :=
      hnow ▸ hf (.clock next w.clock)
    exact (ih w.clock (h.look hi hstep) hi (Function.update_self ..)).of_update
  | call x limit next ih =>
    have hmoves := h.loses.moves x
    have hmove (took : Nat) := h.move hi hmoves (hnow ▸ hf (.call x limit next ⟨_, took⟩))
    unfold World.perform
    generalize w.call x = r at hmove
    obtain ⟨outcome, w'⟩ := r
    have hatOnce := (ih _ (hmove 0) hi (Function.update_self ..)).of_update
    cases outcome with
    | answered answer => exact hatOnce
    | failed causes => exact hatOnce
    | gaveUp =>
      -- The tasks go on while the call hangs.
      have hwait : GoesOn start b (Function.update now i (f (next ⟨.gaveUp, limit⟩))) is
          (if limit = 0 then w' else w'.passUntil (w'.now + limit)) := by
        split
        · exact (hmove limit).goesOn
        · exact (hmove limit).passUntil _
      have hself := hwait.brings hi (· = f (next ⟨.gaveUp, limit⟩)) (Function.update_self ..)
      exact (hself.trans hi fun now' js hi' hnow' hjs => ih _ hjs hi' hnow').of_update

/-- While the foreground sleeps, tasks run. -/
theorem Along.sleep (h : Along start b w now is) (ms : Nat) (cancelledAt : Option Nat) :
    GoesOn start b now is (w.sleep ms cancelledAt).2 := by
  unfold World.sleep
  cases cancelledAt with
  | none => exact h.passUntil _
  | some moment =>
    dsimp only
    split
    · exact h.goesOn
    · split
      · exact h.passThrough moment
      · exact h.passUntil _

/-- A routine in the foreground goes on as a process that is none of the tasks. -/
theorem Along.follow {r : Routine} (h : Along start b w now is) (hi : i ∉ is)
    (hnow : now i = .pause r) (cancelledAt : Option Nat) (rounds : Nat) :
    Brings start b now is i (fun _ => True) (World.follow cancelledAt rounds w r).2 := by
  induction rounds generalizing w now is r with
  | zero => exact h.goesOn.brings hi _ trivial
  | succ rounds ih =>
    have hwake : Along start b w (Function.update now i (.round r.round)) is :=
      h.begin (r := .round r) hi hnow
    have hround := hwake.perform .round hi (Function.update_self ..)
    unfold World.follow
    generalize w.perform r.round = result at hround
    obtain ⟨next, w'⟩ := result
    refine hround.of_update.trans hi fun now' js hi' hdone hjs => ?_
    cases next with
    | none => exact hjs.goesOn.brings hi' _ trivial
    | some next =>
      obtain ⟨next, pause⟩ := next
      have hrest : (now' i).Turn (.pause next) := by
        rw [hdone]
        exact .rest next pause
      have hsleep := ((hjs.turn hi' hrest).sleep pause cancelledAt).brings hi' (· = .pause next)
        (Function.update_self ..)
      dsimp only
      generalize w'.sleep pause cancelledAt = result at hsleep
      obtain ⟨awake, w''⟩ := result
      refine hsleep.of_update.trans hi' fun now'' ks hi'' hpause hks => ?_
      cases awake with
      | true => exact ih hks hi'' hpause
      | false => exact hks.goesOn.brings hi'' _ trivial

/-- A routine in the foreground is a process among the others. -/
theorem Along.await {r : Routine} (h : Along start b w now is) (hi : i ∉ is)
    (hnow : now i = .pause r) (cancelledAt : Option Nat) :
    Brings start b now is i (fun _ => True) (w.await r cancelledAt).2 := by
  unfold World.await
  split
  · exact h.goesOn.brings hi _ trivial
  · exact h.follow hi hnow cancelledAt _

end Along

/-! ### Programs alone -/

/-- In a world without tasks a program in the foreground runs alone. -/
theorem alone_perform (h : w.Loses) (htasks : w.tasks = []) (p : Program α) :
    ∃ past, p.Alone w.backend past (w.perform p).2.backend (.done (w.perform p).1) := by
  have hfirst : Along (fun _ : Unit => .program p) w.backend w (fun _ => .program p) [] :=
    ⟨h, ⟨[], .nil, rfl⟩, .nil, htasks ▸ .nil⟩
  obtain ⟨now, js, hjs, -, hdone, -⟩ := hfirst.perform .program List.not_mem_nil rfl
  obtain ⟨t, hrun, hbackend⟩ := hjs.run
  obtain ⟨q, past, hq, halone⟩ := hrun.exists_alone rfl
  obtain rfl := Process.program.inj (hq.symm.trans hdone)
  exact ⟨past, hbackend ▸ halone⟩

/-! ### Requests -/

/-- Handles requests one after another, each after some milliseconds. -/
def handleAll (c : Config) (requests : κ → String × Http.Request) (w : World) :
    List (Nat × κ) → List Http.Response × World
  | [] => ([], w)
  | (ms, k) :: rest =>
    let (response, w) := (w.passThrough (w.now + ms)).perform
      (Http.Api.handle c (requests k).1 (requests k).2)
    let (responses, w) := handleAll c requests w rest
    (response :: responses, w)

/-- The background tasks stand at their first pauses. -/
theorem forall₂_processes (c : Config) (backup : BackupSchedule) (lifecycle : LifecycleSchedule)
    (requests : κ → String × Http.Request) :
    List.Forall₂ (fun i r => processes c backup lifecycle requests i = .pause r)
      ((List.finRange _).map .inl) (Background.tasks c backup lifecycle) := by
  have hall : List.Forall₂ (fun i r => processes c backup lifecycle requests i = .pause r)
      ((List.finRange _).map .inl)
      ((List.finRange _).map fun k => (Background.tasks c backup lifecycle)[k.val]) :=
    List.forall₂_map_left_iff.2 (List.forall₂_map_right_iff.2 (List.forall₂_same.2 fun _ _ => rfl))
  rwa [List.map_getElem_finRange] at hall

section Requests

variable [DecidableEq κ] {c : Config} {backup : BackupSchedule} {lifecycle : LifecycleSchedule}
  {requests : κ → String × Http.Request} {schedule : List (Nat × κ)}

/-- Requests that were not begun are handled, and no others. -/
theorem Along.handleAll
    {now : Fin (Background.tasks c backup lifecycle).length ⊕ κ → Process Http.Response}
    {b : Backend} {is : List (Fin (Background.tasks c backup lifecycle).length ⊕ κ)}
    (h : Along (processes c backup lifecycle requests) b w now is) (his : ∀ k, .inr k ∉ is)
    (hdistinct : (schedule.map Prod.snd).Nodup)
    (hready : ∀ k ∈ schedule.map Prod.snd,
      now (.inr k) = processes c backup lifecycle requests (.inr k)) :
    ∃ now' js,
      Along (processes c backup lifecycle requests) b (w.handleAll c requests schedule).2 now' js ∧
      (∀ k, k ∉ schedule.map Prod.snd → now' (.inr k) = now (.inr k)) ∧
      List.Forall₂ (fun k response => now' (.inr k) = .program (.done response))
        (schedule.map Prod.snd) (w.handleAll c requests schedule).1 := by
  induction schedule generalizing w now is with
  | nil => exact ⟨now, is, h, fun _ _ => rfl, .nil⟩
  | cons first rest ih =>
    obtain ⟨ms, k⟩ := first
    obtain ⟨hk, hrest⟩ := List.nodup_cons.1 hdistinct
    obtain ⟨hfirst, hothers⟩ := List.forall_mem_cons.1 hready
    have hwait := (h.passThrough (w.now + ms)).brings (his k)
      (· = processes c backup lifecycle requests (.inr k)) hfirst
    obtain ⟨now₁, js, hjs, hsub, hdone, hkept⟩ := hwait.trans (his k)
      fun now' js hi hnow hjs => hjs.perform .program hi hnow
    have hjs' (l : κ) : .inr l ∉ js := mt (@hsub _) (his l)
    have hother {l : κ} (hne : l ≠ k) : now₁ (.inr l) = now (.inr l) :=
      hkept _ (List.not_mem_cons_of_ne_of_not_mem (fun heq => hne (Sum.inr.inj heq)) (his l))
    obtain ⟨now₂, ks, hks, hkept', hresponses⟩ := ih hjs hjs' hrest fun l hl =>
      (hother fun heq => hk (heq ▸ hl)).trans (hothers l hl)
    refine ⟨now₂, ks, hks, fun l hl => ?_, .cons ?_ hresponses⟩
    · obtain ⟨hne, hl⟩ := not_or.1 (mt List.mem_cons.2 hl)
      exact (hkept' l hl).trans (hother hne)
    · exact (hkept' k hk).trans hdone

/-- The background tasks of a workspace and the requests that are handled beside them make a
concurrent run, in which each request has ended with its response. -/
theorem exists_concurrent_handleAll (h : w.Loses) (htasks : w.tasks = []) (c : Config)
    (backup : BackupSchedule) (lifecycle : LifecycleSchedule)
    (requests : κ → String × Http.Request) (hdistinct : (schedule.map Prod.snd).Nodup) :
    ∃ t now, Concurrent (processes c backup lifecycle requests) w.backend t now ∧
      w.backend.replay t =
        ((w.start (Background.tasks c backup lifecycle)).handleAll c requests schedule).2.backend ∧
      List.Forall₂ (fun k response => now (.inr k) = .program (.done response))
        (schedule.map Prod.snd)
        ((w.start (Background.tasks c backup lifecycle)).handleAll c requests schedule).1 := by
  have hfirst : Along (processes c backup lifecycle requests) w.backend w
      (processes c backup lifecycle requests) [] :=
    ⟨h, ⟨[], .nil, rfl⟩, .nil, htasks ▸ .nil⟩
  have hnodup : ((List.finRange (Background.tasks c backup lifecycle).length).map
      (Sum.inl : _ → _ ⊕ κ) ++ []).Nodup := by
    rw [List.append_nil]
    exact (List.nodup_finRange _).map Sum.inl_injective
  obtain ⟨now₁, is, his, hsub, hkept⟩ :=
    hfirst.starts hnodup (forall₂_processes c backup lifecycle requests)
  have hrequest (k : κ) : (Sum.inr k : _ ⊕ κ) ∉
      (List.finRange (Background.tasks c backup lifecycle).length).map Sum.inl ++ [] := by
    simp
  obtain ⟨now₂, js, hjs, -, hresponses⟩ := his.handleAll (fun k => mt (@hsub _) (hrequest k))
    hdistinct fun k _ => hkept _ (hrequest k)
  obtain ⟨t, hrun, hbackend⟩ := hjs.run
  exact ⟨t, now₂, hrun, hbackend, hresponses⟩

end Requests

end World

end Simulation

end Workplane
