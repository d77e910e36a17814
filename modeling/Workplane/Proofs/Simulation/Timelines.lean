import Workplane.Proofs.Background.Isolation
import Workplane.Proofs.Simulation.Concurrency

/-!
# Worlds are timelines

The background tasks of a world whose faults only lose calls are tasks on a timeline
(`World.exists_mirrors`): at any moment they find the same data, wait for the same and have made the
same calls.  So what is proved of all timelines is true of them, as that backups keep their
schedules (`World.exists_backupsOnSchedule`).

What becomes of a call follows in a world from the calls that were made before it, on a timeline
from the place of the task and the number of its turns.  So the faults are first kept beside the
timeline (`Faulty`); as no task takes the turn of a number twice, what they make of the call in each
turn can then be read off the whole run (`Faulty.conditions`).
-/

namespace Workplane

open Background (BackupSchedule LifecycleSchedule)
open Simulation

namespace Conditions

variable {E E' : Conditions} {slot : Slot} {b : Backend}

/-- All calls end in the same way, the clock stands still and nobody cancels the tasks. -/
def still (clock : Timestamp) (fate : Fate) : Conditions :=
  ⟨fun _ _ _ _ => fate, fun _ => clock, none⟩

/-- A turn depends on the conditions only through the end of its call, the clock and the
cancellation. -/
theorem turn_congr (hclock : E.clock = E'.clock) (hcancel : E.cancel = E'.cancel)
    (hfate : ∀ x, E.fate slot.task slot.turns slot.moment x =
      E'.fate slot.task slot.turns slot.moment x) : E.turn slot b = E'.turn slot b := by
  unfold turn notices rest ask
  simp only [hclock, hcancel, hfate]

end Conditions

/-! ### Turns are taken once -/

namespace Timeline

variable {E E' : Conditions} {s : Timeline} {slot t : Slot} {others : List Slot} {next : Next}
  {task turns : Nat}

/-- No task waits twice. -/
def Distinct (s : Timeline) : Prop :=
  (s.agenda.map Slot.task).Nodup

/-- A task has taken the turn of a number. -/
def HasTaken (s : Timeline) (task turns : Nat) : Prop :=
  ∀ t ∈ s.agenda, t.task = task → turns < t.turns

theorem distinct_start (b : Backend) (routines : List Routine) : (start b routines).Distinct := by
  refine List.pairwise_iff_getElem.2 fun i j hi hj hlt => ?_
  simp only [start, List.getElem_map, List.getElem_mapIdx]
  exact Nat.ne_of_lt hlt

/-- What comes next takes one turn more, and the others stay. -/
theorem mem_place (h : t ∈ next.place slot others) :
    t ∈ others ∨ t.task = slot.task ∧ t.turns = slot.turns + 1 := by
  cases next with
  | ended => exact .inl h
  | atOnce stage =>
    rcases List.mem_cons.1 h with rfl | h
    · exact .inr ⟨rfl, rfl⟩
    · exact .inl h
  | later ms stage =>
    rcases Slot.mem_insert.1 h with rfl | h
    · exact .inr ⟨rfl, rfl⟩
    · exact .inl h

theorem nodup_place (h : ((slot :: others).map Slot.task).Nodup) (next : Next) :
    ((next.place slot others).map Slot.task).Nodup := by
  cases next with
  | ended => exact (List.nodup_cons.1 h).2
  | atOnce stage => exact h
  | later ms stage =>
    have hperm := (List.perm_orderedInsert (fun s t : Slot => s.moment < t.moment)
      ⟨slot.moment + ms, slot.task, slot.turns + 1, stage⟩ others).map Slot.task
    exact hperm.nodup_iff.2 h

/-- No step lets a task stand twice on the agenda. -/
theorem Distinct.step (h : s.Distinct) (E : Conditions) : (s.step E).Distinct := by
  cases hagenda : s.agenda with
  | nil =>
    rw [step_eq_self hagenda]
    exact h
  | cons slot others =>
    rw [Distinct, hagenda] at h
    rw [Distinct, step_eq hagenda]
    exact nodup_place h _

/-- A turn that was taken stays taken. -/
theorem HasTaken.step (h : s.HasTaken task turns) (E : Conditions) :
    (s.step E).HasTaken task turns := by
  cases hagenda : s.agenda with
  | nil =>
    rw [step_eq_self hagenda]
    exact h
  | cons slot others =>
    have hslot := h slot (hagenda ▸ .head others)
    intro t ht htask
    rw [step_eq hagenda] at ht
    rcases mem_place ht with ht | ⟨heq, hturns⟩
    · exact h t (hagenda ▸ .tail slot ht) htask
    · exact hturns ▸ (hslot (heq ▸ htask)).trans (Nat.lt_succ_self _)

/-- After its turn, the first task has taken it. -/
theorem Distinct.hasTaken (h : s.Distinct) (hagenda : s.agenda = slot :: others)
    (E : Conditions) : (s.step E).HasTaken slot.task slot.turns := by
  rw [Distinct, hagenda, List.map_cons] at h
  intro t ht htask
  rw [step_eq hagenda] at ht
  rcases mem_place ht with ht | ⟨-, hturns⟩
  · exact absurd (htask ▸ List.mem_map_of_mem ht) (List.nodup_cons.1 h).1
  · exact hturns ▸ Nat.lt_succ_self _

end Timeline

namespace Simulation

/-! ### Timelines with faults -/

/-- What becomes of a call; unless an effect loses it, it is answered at once. -/
def fateOf : Option Effect → Fate
  | some (.failure causes) => .failed causes 0
  | some .hang => .hangs
  | _ => .answered 0

/-- A timeline beside faults that decide what becomes of its calls. -/
structure Faulty where
  timeline : Timeline
  faults : List Fault

namespace Faulty

variable {s : Faulty} {clock : Timestamp} {slot : Slot} {others : List Slot} {n m : Nat}

/-- What becomes of the call that the first task makes in its turn, if it makes one, and the faults
after it. -/
def fateNow (s : Faulty) : Fate × List Fault :=
  match s.timeline.agenda with
  | ⟨_, _, _, .work (.call x _ _)⟩ :: _ =>
    (fateOf (Fault.apply x s.faults).1, (Fault.apply x s.faults).2)
  | _ => (.answered 0, s.faults)

/-- The first task takes its turn. -/
def step (clock : Timestamp) (s : Faulty) : Faulty where
  timeline := s.timeline.step (.still clock s.fateNow.1)
  faults := s.fateNow.2

/-- The state after some steps. -/
def run (clock : Timestamp) (s : Faulty) (n : Nat) : Faulty :=
  (step clock)^[n] s

theorem run_succ (clock : Timestamp) (s : Faulty) (n : Nat) :
    s.run clock (n + 1) = (s.run clock n).step clock :=
  Function.iterate_succ_apply' (step clock) n s

theorem run_add (clock : Timestamp) (s : Faulty) (m n : Nat) :
    s.run clock (m + n) = (s.run clock m).run clock n := by
  rw [Nat.add_comm]
  exact Function.iterate_add_apply (step clock) n m s

/-- In its turn, the first task makes a call. -/
theorem step_call {x : Call} {limit now moment task turns : Nat}
    {next : Reply x.Answer → Program (Option (Routine × Nat))} {b : Backend} {past : List Record}
    {faults : List Fault} {stage : Next}
    (h : (Conditions.still clock (fateOf (Fault.apply x faults).1)).ask
      ⟨moment, task, turns, .work (.call x limit next)⟩ x limit next = stage) :
    step clock ⟨⟨now, b, ⟨moment, task, turns, .work (.call x limit next)⟩ :: others, past⟩,
        faults⟩ =
      ⟨⟨moment, b, stage.place ⟨moment, task, turns, .work (.call x limit next)⟩ others,
        past ++ []⟩, (Fault.apply x faults).2⟩ := by
  subst h
  rfl

/-- What steps keep, runs keep. -/
theorem run_keeps (P : Timeline → Prop) (step : ∀ t E, P t → P (t.step E)) (h : P s.timeline)
    (n : Nat) : P (s.run clock n).timeline := by
  induction n with
  | zero => exact h
  | succ n ih =>
    rw [run_succ]
    exact step _ _ ih

/-- A task takes the turn of a number once. -/
theorem turns_lt_of_lt (h : s.timeline.Distinct) {slot' : Slot} {others' : List Slot}
    (hn : (s.run clock n).timeline.agenda = slot :: others)
    (hm : (s.run clock m).timeline.agenda = slot' :: others') (hlt : n < m)
    (htask : slot'.task = slot.task) : slot.turns < slot'.turns := by
  obtain ⟨k, rfl⟩ := Nat.exists_eq_add_of_lt hlt
  have hdistinct : (s.run clock n).timeline.Distinct :=
    run_keeps Timeline.Distinct (fun _ E h => h.step E) h n
  have htaken : ((s.run clock (n + 1)).run clock k).timeline.HasTaken slot.task slot.turns := by
    refine run_keeps (·.HasTaken slot.task slot.turns) (fun _ E h => h.step E) ?_ k
    rw [run_succ]
    exact hdistinct.hasTaken hn _
  rw [← run_add, Nat.add_right_comm] at htaken
  exact htaken slot' (hm ▸ .head others') htask

/-- The task of a number takes the turn of a number in a step. -/
def Takes (s : Faulty) (task turns : Nat) : Prop :=
  ∃ slot others, s.timeline.agenda = slot :: others ∧ slot.task = task ∧ slot.turns = turns

/-- A task takes each of its turns once. -/
theorem eq_of_takes (h : s.timeline.Distinct) {task turns : Nat}
    (hn : (s.run clock n).Takes task turns) (hm : (s.run clock m).Takes task turns) : n = m := by
  obtain ⟨slot, others, hagenda, rfl, rfl⟩ := hn
  obtain ⟨slot', others', hagenda', htask, hturns⟩ := hm
  rcases Nat.lt_trichotomy n m with hlt | heq | hgt
  · exact absurd (turns_lt_of_lt h hagenda hagenda' hlt htask) (by omega)
  · exact heq
  · exact absurd (turns_lt_of_lt h hagenda' hagenda hgt htask.symm) (by omega)

open Classical in
/-- The conditions under which calls end on the timeline as they do beside the faults. -/
noncomputable def conditions (clock : Timestamp) (s : Faulty) : Conditions where
  fate task turns _ _ :=
    if h : ∃ n, (s.run clock n).Takes task turns then (s.run clock h.choose).fateNow.1
    else .answered 0
  clock _ := clock
  cancel := none

/-- The conditions that were read off a run bring that very run about. -/
theorem run_conditions (h : s.timeline.Distinct) (clock : Timestamp) (n : Nat) :
    s.timeline.run (s.conditions clock) n = (s.run clock n).timeline := by
  induction n with
  | zero => rfl
  | succ n ih =>
    rw [Timeline.run_succ, ih, run_succ]
    show (s.run clock n).timeline.step _ = (s.run clock n).timeline.step _
    cases hagenda : (s.run clock n).timeline.agenda with
    | nil => rw [Timeline.step_eq_self hagenda, Timeline.step_eq_self hagenda]
    | cons slot others =>
      -- The turn is taken in this step and in no other one.
      have htakes : ∃ n, (s.run clock n).Takes slot.task slot.turns :=
        ⟨n, slot, others, hagenda, rfl, rfl⟩
      have hchoice : htakes.choose = n :=
        eq_of_takes h htakes.choose_spec ⟨slot, others, hagenda, rfl, rfl⟩
      have hfate (x : Call) : (s.conditions clock).fate slot.task slot.turns slot.moment x =
          (s.run clock n).fateNow.1 := by
        refine (dif_pos htakes).trans ?_
        rw [hchoice]
      have hturn : (s.conditions clock).turn slot (s.run clock n).timeline.backend =
          (Conditions.still clock (s.run clock n).fateNow.1).turn slot
            (s.run clock n).timeline.backend := Conditions.turn_congr rfl rfl hfate
      rw [Timeline.step_eq hagenda, Timeline.step_eq hagenda, hturn]

end Faulty

/-! ### Worlds and timelines -/

/-- What a task of a world goes on with is what a task on a timeline goes on with. -/
inductive Stands : Resumption → Stage → Prop
  | first (r : Routine) : Stands (.round r) (.first r)
  | pause (r : Routine) : Stands (.round r) (.pause r)
  | call (x : Call) (limit : Nat) (next : Reply x.Answer → Program (Option (Routine × Nat))) :
    Stands (.within (next ⟨.gaveUp, limit⟩)) (.call x limit .hangs next)

theorem stands_stage (r : Routine) : Stands (.round r) r.stage := by
  cases r with
  | stop => exact .first _
  | forever work afterSuccess afterFailure => exact .first _
  | untilSuccess work afterFailure next => exact .pause _

/-- A task of a world and one on a timeline wait for the same. -/
structure Waits (t : Task) (slot : Slot) : Prop where
  moment : t.wakesAt = slot.moment
  stands : Stands t.resumption slot.stage

theorem forall₂_insert {t : Task} {slot : Slot} {ts : List Task} {others : List Slot}
    (h : List.Forall₂ Waits ts others) (ht : Waits t slot) :
    List.Forall₂ Waits (t.insert ts) (slot.insert others) := by
  induction h with
  | nil => exact .cons ht .nil
  | @cons u first ts others hfirst hrest ih =>
    rcases Nat.lt_or_ge slot.moment first.moment with hlt | hge
    · rw [Slot.insert_cons_of_lt hlt, Task.insert, if_pos (by rwa [ht.moment, hfirst.moment])]
      exact .cons ht (.cons hfirst hrest)
    · rw [Slot.insert_cons_of_le hge, Task.insert,
        if_neg (by rw [ht.moment, hfirst.moment]; exact Nat.not_lt.2 hge)]
      exact .cons hfirst ih

/-- The call that was made if something was done, with the moment at which it began. -/
def callOf? (e : Record) : Option LogEntry :=
  match e.act with
  | .moved (.call x reply) =>
    some ⟨e.moment - reply.took, keyOf x, kindOf x, World.resultOf x reply.outcome⟩
  | _ => none

/-- The call that a task waits for; it hangs, as no other call takes any time. -/
def pending? (slot : Slot) : Option LogEntry :=
  match slot.stage with
  | .call x limit _ _ => some ⟨slot.moment - limit, keyOf x, kindOf x, .hung⟩
  | _ => none

/-- The calls that were made on a timeline. -/
def calls (s : Timeline) : List LogEntry :=
  s.past.filterMap callOf? ++ s.agenda.filterMap pending?

theorem filterMap_callOf?_of_none {e : Record} (h : callOf? e = none) (past : List Record) :
    (past ++ [e]).filterMap callOf? = past.filterMap callOf? := by
  rw [List.filterMap_append, List.filterMap_cons_none h, List.filterMap_nil, List.append_nil]

theorem filterMap_callOf?_of_some {e : Record} {entry : LogEntry} (h : callOf? e = some entry)
    (past : List Record) : (past ++ [e]).filterMap callOf? = past.filterMap callOf? ++ [entry] := by
  rw [List.filterMap_append, List.filterMap_cons_some h, List.filterMap_nil]

theorem perm_filterMap_insert (slot : Slot) (agenda : List Slot) :
    ((slot.insert agenda).filterMap pending?).Perm ((slot :: agenda).filterMap pending?) :=
  (List.perm_orderedInsert _ slot agenda).filterMap pending?

namespace World

variable {w : World} {s : Faulty} {x : Call} {limit : Nat}

/-- A world and a timeline have the same data, tasks and calls, which are logged when they begin. -/
structure Mirrors (w : World) (s : Timeline) : Prop where
  backend : w.backend = s.backend
  tasks : List.Forall₂ Waits w.tasks s.agenda
  log : w.log.Perm (calls s)

/-- A world stands at the same point as a timeline with faults. -/
structure Follows (clock : Timestamp) (w : World) (s : Faulty) : Prop where
  clock : w.clock = clock
  loses : w.Loses
  faults : w.faults = s.faults
  now : w.now = s.timeline.now
  mirrors : w.Mirrors s.timeline

/-- The first task on a timeline is at work. -/
structure Works (clock : Timestamp) (w : World) (p : Program (Option (Routine × Nat)))
    (s : Faulty) (slot : Slot) (others : List Slot) : Prop where
  clock : w.clock = clock
  loses : w.Loses
  faults : w.faults = s.faults
  backend : w.backend = s.timeline.backend
  agenda : s.timeline.agenda = slot :: others
  moment : slot.moment = w.now
  stage : slot.stage = .work p
  tasks : List.Forall₂ Waits w.tasks others
  log : w.log.Perm (s.timeline.past.filterMap callOf? ++ others.filterMap pending?)

/-- A task goes on with the rest of a round, until it waits again or ends. -/
def carryOn (w : World) (p : Program (Option (Routine × Nat))) : World :=
  match w.advance p with
  | (.ended none, w) => w
  | (.ended (some (next, pause)), w) => w.wait pause (.round next)
  | (.waiting limit rest, w) => w.wait limit (.within rest)

/-- What becomes of a call that is made now. -/
def fate (w : World) (x : Call) : Fate :=
  fateOf (Fault.apply x w.faults).1

/-- The reply to a call that is made now. -/
def replyTo (w : World) (x : Call) (limit : Nat) : Reply x.Answer :=
  (w.fate x).reply x limit w.backend

/-- The world after a call that a task makes now. -/
def asked (w : World) (x : Call) (limit : Nat) : World :=
  { w with
    faults := (Fault.apply x w.faults).2
    backend := (Move.call x (w.replyTo x limit)).after w.backend
    log := ⟨w.now, keyOf x, kindOf x, resultOf x (w.replyTo x limit).outcome⟩ :: w.log }

theorem loggedCall_eq (h : w.Loses) (x : Call) (limit : Nat) :
    w.loggedCall x = ((w.replyTo x limit).outcome, w.asked x limit) := by
  have hloss := (Fault.apply_loses h x).1
  unfold loggedCall call asked replyTo fate
  generalize Fault.apply x w.faults = applied at hloss
  obtain ⟨effect, faults⟩ := applied
  cases hloss with
  | none => simp [fateOf, Fate.reply, Fate.outcome, Move.after]
  | failure causes => simp [fateOf, Fate.reply, Fate.outcome, Move.after]
  | hang => simp [fateOf, Fate.reply, Fate.outcome, Move.after]

/-- A call takes no time and is not given up, or it hangs. -/
theorem fate_cases (h : w.Loses) (x : Call) (limit : Nat) :
    ((w.fate x).took limit = 0 ∧ w.replyTo x limit = ⟨(w.replyTo x limit).outcome, 0⟩ ∧
      (w.replyTo x limit).outcome ≠ .gaveUp) ∨
    w.fate x = .hangs := by
  have hloss := (Fault.apply_loses h x).1
  unfold replyTo fate
  generalize (Fault.apply x w.faults).1 = effect at hloss
  cases hloss with
  | none => exact .inl ⟨Nat.zero_min limit, by simp [fateOf, Fate.reply, Fate.took, Fate.outcome]⟩
  | failure causes =>
    exact .inl ⟨Nat.zero_min limit, by simp [fateOf, Fate.reply, Fate.took, Fate.outcome]⟩
  | hang => exact .inr rfl

/-- After a call a task goes on at once, or it waits as the call hangs. -/
theorem carryOn_call (h : w.Loses) (x : Call) (limit : Nat)
    (next : Reply x.Answer → Program (Option (Routine × Nat))) :
    w.carryOn (.call x limit next) =
      if (w.fate x).took limit = 0 then (w.asked x limit).carryOn (next (w.replyTo x limit))
      else (w.asked x limit).wait limit (.within (next ⟨.gaveUp, limit⟩)) := by
  have hcall := loggedCall_eq h x limit
  rcases fate_cases h x limit with ⟨htook, hreply, hnot⟩ | hhangs
  · rw [if_pos htook, carryOn, advance, hcall, hreply]
    generalize (w.replyTo x limit).outcome = outcome at hnot
    cases outcome with
    | answered answer => rfl
    | failed causes => rfl
    | gaveUp => exact absurd rfl hnot
  · have htook : (w.fate x).took limit = limit := by
      rw [hhangs]
      rfl
    have hreply : w.replyTo x limit = ⟨.gaveUp, limit⟩ := by
      rw [replyTo, hhangs]
      rfl
    rw [htook, carryOn, advance, hcall, hreply]
    dsimp only
    by_cases hzero : limit = 0
    · subst hzero
      rw [if_pos rfl, if_pos rfl]
      rfl
    · rw [if_neg hzero, if_neg hzero]

section Works

variable {clock : Timestamp} {slot : Slot} {others : List Slot}

theorem Works.returns (h : Works clock w (.done none) s slot others) :
    Follows clock w (s.step clock) := by
  obtain ⟨⟨now, backend, agenda, past⟩, faults⟩ := s
  obtain ⟨moment, task, turns, stage⟩ := slot
  obtain ⟨rfl, hloses, rfl, rfl, rfl, rfl, rfl, htasks, hlog⟩ := h
  refine ⟨rfl, hloses, rfl, rfl, rfl, htasks, ?_⟩
  show w.log.Perm ((past ++ [Record.mk w.now task .returned]).filterMap callOf? ++ _)
  rw [filterMap_callOf?_of_none rfl]
  exact hlog

theorem Works.rests {r : Routine} {ms : Nat}
    (h : Works clock w (.done (some (r, ms))) s slot others) :
    Follows clock (w.wait ms (.round r)) (s.step clock) := by
  obtain ⟨⟨now, backend, agenda, past⟩, faults⟩ := s
  obtain ⟨moment, task, turns, stage⟩ := slot
  obtain ⟨rfl, hloses, rfl, rfl, rfl, rfl, rfl, htasks, hlog⟩ := h
  refine ⟨rfl, hloses, rfl, rfl, rfl, forall₂_insert htasks ⟨rfl, .pause r⟩, ?_⟩
  have hperm := perm_filterMap_insert ⟨w.now + ms, task, turns + 1, .pause r⟩ others
  show w.log.Perm ((past ++ [Record.mk w.now task .rested]).filterMap callOf? ++ _)
  rw [filterMap_callOf?_of_none rfl]
  exact hlog.trans (hperm.symm.append_left _)

theorem Works.looks {next : Timestamp → Program (Option (Routine × Nat))}
    (h : Works clock w (.clock next) s slot others) :
    ∃ slot, Works clock w (next w.clock) (s.step clock) slot others := by
  obtain ⟨⟨now, backend, agenda, past⟩, faults⟩ := s
  obtain ⟨moment, task, turns, stage⟩ := slot
  obtain ⟨rfl, hloses, rfl, rfl, rfl, rfl, rfl, htasks, hlog⟩ := h
  refine ⟨⟨w.now, task, turns + 1, .work (next w.clock)⟩, rfl, hloses, rfl, rfl, rfl, rfl, rfl,
    htasks, ?_⟩
  show w.log.Perm
    ((past ++ [Record.mk w.now task (.moved (.clock w.clock))]).filterMap callOf? ++ _)
  rw [filterMap_callOf?_of_none rfl]
  exact hlog

/-- A call that takes no time ends in the turn after the one in which it is made. -/
theorem Works.calls {next : Reply x.Answer → Program (Option (Routine × Nat))}
    (h : Works clock w (.call x limit next) s slot others)
    (htook : (w.fate x).took limit = 0) :
    ∃ slot, Works clock (w.asked x limit) (next (w.replyTo x limit)) ((s.step clock).step clock)
      slot others := by
  obtain ⟨⟨now, backend, agenda, past⟩, faults⟩ := s
  obtain ⟨moment, task, turns, stage⟩ := slot
  obtain ⟨rfl, hloses, rfl, rfl, rfl, rfl, rfl, htasks, hlog⟩ := h
  have hentry : callOf? ⟨w.now, task, .moved (.call x (w.replyTo x limit))⟩ =
      some ⟨w.now, keyOf x, kindOf x, resultOf x (w.replyTo x limit).outcome⟩ := by
    show some (LogEntry.mk (w.now - (w.fate x).took limit) _ _ _) = _
    rw [htook]
    rfl
  rw [Faulty.step_call (if_pos htook), List.append_nil]
  refine ⟨⟨w.now, task, turns + 2, .work (next (w.replyTo x limit))⟩, rfl,
    (Fault.apply_loses hloses x).2, rfl, rfl, rfl, rfl, rfl, htasks, ?_⟩
  show (LogEntry.mk w.now _ _ _ :: w.log).Perm
    ((past ++ [Record.mk w.now task (.moved (.call x (w.replyTo x limit)))]).filterMap callOf? ++ _)
  rw [filterMap_callOf?_of_some hentry, List.append_assoc]
  exact (hlog.cons _).trans List.perm_middle.symm

/-- A call that hangs makes its task wait out the limit on both sides. -/
theorem Works.hangs {next : Reply x.Answer → Program (Option (Routine × Nat))}
    (h : Works clock w (.call x limit next) s slot others)
    (htook : (w.fate x).took limit ≠ 0) :
    Follows clock ((w.asked x limit).wait limit (.within (next ⟨.gaveUp, limit⟩)))
      (s.step clock) := by
  obtain ⟨⟨now, backend, agenda, past⟩, faults⟩ := s
  obtain ⟨moment, task, turns, stage⟩ := slot
  obtain ⟨rfl, hloses, rfl, rfl, rfl, rfl, rfl, htasks, hlog⟩ := h
  have hhangs : w.fate x = .hangs := (fate_cases hloses x limit).resolve_left fun h => htook h.1
  have hreply : w.replyTo x limit = ⟨.gaveUp, limit⟩ := by
    rw [replyTo, hhangs]
    rfl
  have hnext : (Conditions.still w.clock (w.fate x)).ask
      ⟨w.now, task, turns, .work (.call x limit next)⟩ x limit next =
        .later limit (.call x limit .hangs next) := by
    rw [hhangs] at htook ⊢
    exact if_neg htook
  rw [Faulty.step_call hnext, List.append_nil]
  have hwaits : Waits ⟨w.now + limit, .within (next ⟨.gaveUp, limit⟩)⟩
      ⟨w.now + limit, task, turns + 1, .call x limit .hangs next⟩ := ⟨rfl, .call x limit next⟩
  refine ⟨rfl, (Fault.apply_loses hloses x).2, rfl, rfl, ?_, forall₂_insert htasks hwaits, ?_⟩
  · show (Move.call x (w.replyTo x limit)).after w.backend = w.backend
    rw [hreply]
    rfl
  · have hpending : pending? ⟨w.now + limit, task, turns + 1, .call x limit .hangs next⟩ =
        some ⟨w.now, keyOf x, kindOf x, .hung⟩ :=
      congrArg (fun time => some (LogEntry.mk time _ _ _)) (Nat.add_sub_cancel w.now limit)
    have hperm := perm_filterMap_insert
      ⟨w.now + limit, task, turns + 1, .call x limit .hangs next⟩ others
    rw [List.filterMap_cons_some hpending] at hperm
    show (LogEntry.mk w.now _ _ (resultOf x (w.replyTo x limit).outcome) :: w.log).Perm _
    rw [hreply]
    exact ((hlog.cons _).trans List.perm_middle.symm).trans (hperm.symm.append_left _)

/-- A task of a world and the one on the timeline go on until they wait again or end. -/
theorem Works.carryOn {p : Program (Option (Routine × Nat))} (h : Works clock w p s slot others) :
    ∃ n, Follows clock (w.carryOn p) (s.run clock n) := by
  -- The world makes all moves of a round at once, the timeline one in each of its steps.
  induction p generalizing w s slot with
  | done result =>
    cases result with
    | none => exact ⟨1, h.returns⟩
    | some next => exact ⟨1, h.rests⟩
  | clock next ih =>
    obtain ⟨slot, hnext⟩ := h.looks
    obtain ⟨n, hn⟩ := ih w.clock hnext
    exact ⟨n + 1, hn⟩
  | call x limit next ih =>
    rw [carryOn_call h.loses]
    split
    · rename_i htook
      obtain ⟨slot, hnext⟩ := h.calls htook
      obtain ⟨n, hn⟩ := ih _ hnext
      exact ⟨n + 2, hn⟩
    · rename_i htook
      exact ⟨1, h.hangs htook⟩

end Works

/-- When the first task of a world wakes up, the one on the timeline is at work after a step. -/
theorem Follows.works {clock : Timestamp} {t : Task} {ts : List Task} (h : Follows clock w s)
    (horderly : s.timeline.Orderly) (htasks : w.tasks = t :: ts) :
    ∃ slot others, Works clock (w.wake t ts) t.resumption.program (s.step clock) slot others := by
  obtain ⟨⟨now, backend, agenda, past⟩, faults⟩ := s
  obtain ⟨rfl, hloses, rfl, rfl, rfl, hwaiting, hlog⟩ := h
  rw [htasks] at hwaiting
  obtain ⟨⟨moment, task, turns, stage⟩, others, hfirst, hothers, hagenda⟩ :=
    List.forall₂_cons_left_iff.1 hwaiting
  obtain rfl : agenda = _ := hagenda
  obtain ⟨wakesAt, resumption⟩ := t
  obtain ⟨rfl, hstands⟩ := hfirst
  have hnow : max w.now wakesAt = wakesAt := Nat.max_eq_right (horderly.ahead _ (.head others))
  refine ⟨⟨wakesAt, task, turns + 1, .work resumption.program⟩, others, ?_⟩
  cases hstands with
  | first r | pause r =>
    refine ⟨rfl, hloses, rfl, rfl, rfl, hnow.symm, rfl, hothers, ?_⟩
    show w.log.Perm ((past ++ [Record.mk wakesAt task .began]).filterMap callOf? ++ _)
    rw [filterMap_callOf?_of_none rfl]
    exact hlog
  | call x limit next =>
    refine ⟨rfl, hloses, rfl, rfl, rfl, hnow.symm, rfl, hothers, ?_⟩
    show w.log.Perm ((past ++
      [Record.mk wakesAt task (.moved (.call x ⟨.gaveUp, limit⟩))]).filterMap callOf? ++ _)
    rw [filterMap_callOf?_of_some rfl, List.append_assoc]
    exact hlog

/-- A task that is resumed works until it waits or ends, and the timeline takes its turns. -/
theorem Follows.resume {clock : Timestamp} {t : Task} {ts : List Task} (h : Follows clock w s)
    (horderly : s.timeline.Orderly) (htasks : w.tasks = t :: ts) :
    ∃ n, Follows clock ((w.wake t ts).resume t.resumption) (s.run clock n) := by
  obtain ⟨slot, others, hworks⟩ := h.works horderly htasks
  obtain ⟨n, hn⟩ := hworks.carryOn
  exact ⟨n + 1, hn⟩

/-- While the due tasks of the world run, the timeline takes their turns. -/
theorem Follows.runTasks {clock : Timestamp} (h : Follows clock w s)
    (horderly : s.timeline.Orderly) (due : Nat → Bool) (fuel : Nat) :
    ∃ n, Follows clock (w.runTasks due fuel) (s.run clock n) := by
  induction fuel generalizing w s with
  | zero => exact ⟨0, h⟩
  | succ fuel ih =>
    unfold World.runTasks
    split
    · exact ⟨0, h⟩
    · rename_i t others htasks
      split
      · obtain ⟨n, hn⟩ := h.resume horderly htasks
        have horderly' : (s.run clock n).timeline.Orderly :=
          Faulty.run_keeps Timeline.Orderly (fun _ E h => h.step E) horderly n
        obtain ⟨m, hm⟩ := ih hn horderly'
        exact ⟨n + m, Faulty.run_add clock s n m ▸ hm⟩
      · exact ⟨0, h⟩

theorem forall₂_start (b : Backend) (routines : List Routine) :
    List.Forall₂ Waits (routines.map (firstTask 0)) (Timeline.start b routines).agenda := by
  refine List.forall₂_iff_get.2 ⟨by simp [Timeline.start], fun i hi hi' => ?_⟩
  simp only [Timeline.start, List.get_eq_getElem, List.getElem_map, List.getElem_mapIdx]
  exact ⟨rfl, stands_stage _⟩

/-- A world without tasks at the beginning. -/
def fresh (clock : Timestamp) (b : Backend) (faults : List Fault) : World :=
  { initial clock with backend := b, faults }

section Fresh

variable {faults : List Fault}

/-- A world that has just started its tasks is followed by a timeline. -/
theorem exists_follows_start (h : ∀ f ∈ faults, f.Loses) (clock : Timestamp) (b : Backend)
    (routines : List Routine) : ∃ n, Follows clock ((fresh clock b faults).start routines)
    (Faulty.run clock ⟨.start b routines, faults⟩ n) := by
  have hlog : ([] : List LogEntry).Perm (calls (.start b routines)) := by
    have hnone : (Timeline.start b routines).agenda.filterMap pending? = [] := by
      refine List.filterMap_eq_nil_iff.2 fun slot hslot => ?_
      obtain ⟨i, hi, rfl⟩ := List.mem_mapIdx.1 hslot
      cases routines[i] <;> rfl
    rw [calls, hnone]
    exact .nil
  have hfirst : Follows clock ⟨0, clock, b, faults, routines.map (firstTask 0), []⟩
      ⟨.start b routines, faults⟩ :=
    ⟨rfl, h, rfl, rfl, rfl, forall₂_start b routines, hlog⟩
  obtain ⟨n, hn⟩ := hfirst.runTasks (Timeline.orderly_start b routines) (· ≤ 0)
    (fuelUntil ⟨0, clock, b, faults, routines.map (firstTask 0), []⟩ 0)
  refine ⟨n, ?_⟩
  rw [fresh, start, tasks_foldl_wait routines (fun t ht => absurd ht List.not_mem_nil)]
  exact ⟨hn.clock, hn.loses, hn.faults, (Nat.max_zero _).trans hn.now, hn.mirrors.backend,
    hn.mirrors.tasks, hn.mirrors.log⟩

/-- At any moment, the background tasks of a world stand where they stand on a timeline, and have
made the same calls. -/
theorem exists_mirrors (h : ∀ f ∈ faults, f.Loses) (clock : Timestamp) (b : Backend)
    (routines : List Routine) (moment : Nat) :
    ∃ n, Mirrors (((fresh clock b faults).start routines).passThrough moment)
      ((Timeline.start b routines).run (Faulty.conditions clock ⟨.start b routines, faults⟩)
        n) := by
  obtain ⟨n, hn⟩ := exists_follows_start h clock b routines
  have horderly : (Faulty.run clock ⟨.start b routines, faults⟩ n).timeline.Orderly :=
    Faulty.run_keeps Timeline.Orderly (fun _ E h => h.step E) (Timeline.orderly_start b routines) n
  obtain ⟨m, hm⟩ := hn.runTasks horderly (· ≤ moment)
    (((fresh clock b faults).start routines).fuelUntil moment)
  have hmirrors := hm.mirrors
  rw [← Faulty.run_add, ← Faulty.run_conditions (Timeline.distinct_start b routines)] at hmirrors
  exact ⟨n + m, hmirrors.backend, hmirrors.tasks, hmirrors.log⟩

/-- At any moment, the background tasks of a workspace have made the calls of a run in which the
backup loops keep their schedules. -/
theorem exists_backupsOnSchedule (h : ∀ f ∈ faults, f.Loses) (clock : Timestamp) (b : Backend)
    (c : Workspace.Config) (backup : BackupSchedule) (lifecycle : LifecycleSchedule) :
    ∃ E : Conditions, ∀ moment, ∃ t : Timeline,
      Mirrors (((fresh clock b faults).start (Background.tasks c backup lifecycle)).passThrough
        moment) t ∧ Background.BackupsOnSchedule c backup E t := by
  refine ⟨Faulty.conditions clock ⟨.start b (Background.tasks c backup lifecycle), faults⟩,
    fun moment => ?_⟩
  obtain ⟨n, hn⟩ := exists_mirrors h clock b (Background.tasks c backup lifecycle) moment
  exact ⟨_, hn, Background.backupsOnSchedule_run c backup lifecycle b _ n⟩

end Fresh

end World

end Simulation

end Workplane
