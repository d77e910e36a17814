import Mathlib.Data.List.Sort
import Workplane.Background.Tasks
import Workplane.Proofs.Program.Processes

/-!
# Background tasks in time

Tasks run on one clock, which stands still while any of them can go on and jumps to the next moment
at which one does.  What becomes of each call, and when the tasks are cancelled, is part of the
conditions of a run (`Conditions`), so a statement about all conditions covers every pattern of calls
that are slow, fail or hang.

The tasks that wait stand in an agenda in the order in which they go on; those that go on at the
same moment stand in the order in which they began to wait.  A step of a run is the turn of the first
task in the agenda (`Timeline.step`).  As the agenda of some of the tasks does not depend on the
others, what they do is what they do without the others as long as the calls of the others do not
change what they read (`Timeline.Shadows.run`).
-/

namespace Workplane

/-! ### Conditions -/

/-- What becomes of a call, unless its limit ends before. -/
inductive Fate where
  /-- It is answered after so many milliseconds. -/
  | answered (after : Nat)
  /-- It fails after so many milliseconds. -/
  | failed (causes : List String) (after : Nat)
  | hangs

namespace Fate

/-- How long a call takes. -/
def took (limit : Nat) : Fate → Nat
  | answered after | failed _ after => min after limit
  | hangs => limit

/-- How a call ends. -/
def outcome (x : Call) (limit : Nat) (b : Backend) : Fate → Outcome x.Answer
  | answered after => if after ≤ limit then .answered (x.answer b).1 else .gaveUp
  | failed causes after => if after ≤ limit then .failed causes else .gaveUp
  | hangs => .gaveUp

/-- The reply to a call that ends on a backend. -/
def reply (f : Fate) (x : Call) (limit : Nat) (b : Backend) : Reply x.Answer :=
  ⟨f.outcome x limit b, f.took limit⟩

theorem took_le (f : Fate) (limit : Nat) : f.took limit ≤ limit := by
  cases f with
  | answered after => exact Nat.min_le_right _ _
  | failed causes after => exact Nat.min_le_right _ _
  | hangs => exact Nat.le_refl _

/-- The call is answered before its limit. -/
def isInTime (limit : Nat) : Fate → Bool
  | answered after => after ≤ limit
  | failed .. | hangs => false

/-- A call has its effect if it is answered in time. -/
theorem after_reply (f : Fate) (x : Call) (limit : Nat) (b : Backend) :
    (Move.call x (f.reply x limit b)).after b =
      bif f.isInTime limit then (x.answer b).2 else b := by
  cases f with
  | answered after =>
    unfold reply outcome isInTime
    dsimp only
    split
    · rw [decide_eq_true ‹_›]
      rfl
    · rw [decide_eq_false ‹_›]
      rfl
  | failed causes after =>
    unfold reply outcome
    dsimp only
    split
    · rfl
    · rfl
  | hangs => rfl

/-- A reply depends on the backend only through the answer. -/
theorem reply_eq (f : Fate) {x : Call} (limit : Nat) {b b' : Backend}
    (h : (x.answer b).1 = (x.answer b').1) : f.reply x limit b = f.reply x limit b' := by
  cases f with
  | answered after =>
    unfold reply outcome
    dsimp only
    rw [h]
  | failed causes after => rfl
  | hangs => rfl

end Fate

/-- The cancellation of all tasks. -/
structure Cancellation where
  moment : Nat
  /-- Whether a task that goes on at this very moment notices it; a task is named by its place, and
  the second argument counts the turns that it has taken. -/
  noticed : Nat → Nat → Bool

/-- What a run depends on beside its tasks and the data that they find. -/
structure Conditions where
  /-- What becomes of a call of a task that has taken so many turns, at a moment. -/
  fate : (task turns moment : Nat) → Call → Fate
  /-- What the clock shows at a moment. -/
  clock : Nat → Timestamp
  cancel : Option Cancellation

/-! ### Tasks -/

/-- What a task that waits goes on with. -/
inductive Stage where
  /-- Its first round. -/
  | first (r : Routine)
  /-- The round after a pause. -/
  | pause (r : Routine)
  /-- Nothing, as it was cancelled. -/
  | cut
  /-- The rest of a round. -/
  | work (rest : Program (Option (Routine × Nat)))
  /-- The end of a call. -/
  | call (x : Call) (limit : Nat) (fate : Fate)
    (next : Reply x.Answer → Program (Option (Routine × Nat)))

/-- A task that waits. -/
structure Slot where
  /-- When it goes on. -/
  moment : Nat
  task : Nat
  /-- How many turns it has taken. -/
  turns : Nat
  stage : Stage

/-- What a task does in a turn. -/
inductive Act where
  | began
  | moved (m : Move)
  /-- A round is over. -/
  | rested
  | returned

/-- Where a task stands after a turn. -/
inductive Next where
  | ended
  | atOnce (stage : Stage)
  | later (ms : Nat) (stage : Stage)

/-- What a turn comes to. -/
structure Turn where
  act : Option Act
  backend : Backend
  next : Next

/-- A routine that goes on to another one looks for a cancellation before its first round, too. -/
def Routine.stage : Routine → Stage
  | .untilSuccess work afterFailure next => .pause (.untilSuccess work afterFailure next)
  | r => .first r

namespace Conditions

variable (E : Conditions)

/-- A task notices at the end of a pause that it was cancelled at this very moment. -/
def notices (slot : Slot) : Bool :=
  E.cancel.any fun c => c.moment = slot.moment && c.noticed slot.task slot.turns

/-- A pause, which a cancellation before its end cuts short. -/
def rest (slot : Slot) (r : Routine) (ms : Nat) : Next :=
  match E.cancel with
  | some c =>
    if c.moment < slot.moment + ms then .later (c.moment - slot.moment) .cut
    else .later ms (.pause r)
  | none => .later ms (.pause r)

/-- A call, which ends after a while or at once. -/
def ask (slot : Slot) (x : Call) (limit : Nat)
    (next : Reply x.Answer → Program (Option (Routine × Nat))) : Next :=
  let fate := E.fate slot.task slot.turns slot.moment x
  if fate.took limit = 0 then .atOnce (.call x limit fate next)
  else .later (fate.took limit) (.call x limit fate next)

/-- The turn of a task. -/
def turn (slot : Slot) (b : Backend) : Turn :=
  match slot.stage with
  | .first r => ⟨some .began, b, .atOnce (.work r.round)⟩
  | .pause r =>
    if E.notices slot then ⟨some .returned, b, .ended⟩
    else ⟨some .began, b, .atOnce (.work r.round)⟩
  | .cut | .work (.done none) => ⟨some .returned, b, .ended⟩
  | .work (.done (some (r, ms))) => ⟨some .rested, b, E.rest slot r ms⟩
  | .work (.clock next) =>
    let now := E.clock slot.moment
    ⟨some (.moved (.clock now)), b, .atOnce (.work (next now))⟩
  | .work (.call x limit next) => ⟨none, b, E.ask slot x limit next⟩
  | .call x limit fate next =>
    let m : Move := .call x (fate.reply x limit b)
    ⟨some (.moved m), m.after b, .atOnce (.work (next (fate.reply x limit b)))⟩

end Conditions

/-- A slot that notices the cancellation stands at its very moment. -/
theorem Conditions.exists_of_notices {E : Conditions} {slot : Slot} (h : E.notices slot = true) :
    ∃ c, E.cancel = some c ∧ c.moment = slot.moment := by
  unfold Conditions.notices at h
  cases hc : E.cancel with
  | none =>
    rw [hc] at h
    exact nomatch h
  | some c =>
    rw [hc] at h
    exact ⟨c, rfl, of_decide_eq_true (Bool.and_eq_true_iff.1 h).1⟩

/-! ### Runs -/

/-- What a task did at a moment. -/
structure Record where
  moment : Nat
  task : Nat
  act : Act

/-- Tasks on a backend at a moment. -/
structure Timeline where
  now : Nat
  backend : Backend
  /-- The tasks that wait, in the order in which they go on. -/
  agenda : List Slot
  /-- What was done, in its order. -/
  past : List Record

/-- Puts a task that waits in its place, behind those that go on at the same moment. -/
def Slot.insert (slot : Slot) (agenda : List Slot) : List Slot :=
  agenda.orderedInsert (fun s t => s.moment < t.moment) slot

/-- The agenda after the turn of its first task. -/
def Next.place (slot : Slot) (others : List Slot) : Next → List Slot
  | ended => others
  | atOnce stage => ⟨slot.moment, slot.task, slot.turns + 1, stage⟩ :: others
  | later ms stage => Slot.insert ⟨slot.moment + ms, slot.task, slot.turns + 1, stage⟩ others

namespace Timeline

/-- Routines that start at moment 0. -/
def start (b : Backend) (routines : List Routine) : Timeline where
  now := 0
  backend := b
  agenda := routines.mapIdx fun i r => ⟨0, i, 0, r.stage⟩
  past := []

/-- The first task in the agenda takes its turn. -/
def step (E : Conditions) (s : Timeline) : Timeline :=
  match s.agenda with
  | [] => s
  | slot :: others =>
    let turn := E.turn slot s.backend
    { now := slot.moment
      backend := turn.backend
      agenda := turn.next.place slot others
      past := s.past ++ (turn.act.map (Record.mk slot.moment slot.task)).toList }

/-- The state after some steps. -/
def run (E : Conditions) (s : Timeline) (n : Nat) : Timeline :=
  (step E)^[n] s

/-- What one task did, each with its moment. -/
def own (s : Timeline) (task : Nat) : List (Nat × Act) :=
  (s.past.filter fun e => e.task = task).map fun e => (e.moment, e.act)

end Timeline

/-! ### The agenda -/

section Agenda

variable {slot t : Slot} {agenda others : List Slot} {next : Next} {P : Nat → Bool}

/-- The agenda is in the order of moments. -/
abbrev InOrder (agenda : List Slot) : Prop :=
  agenda.Pairwise fun s t => s.moment ≤ t.moment

theorem Slot.mem_insert : t ∈ slot.insert agenda ↔ t = slot ∨ t ∈ agenda :=
  List.mem_orderedInsert _

/-- A slot is placed before the first one that comes later. -/
theorem Slot.insert_cons_of_lt {first : Slot} (h : slot.moment < first.moment) (rest : List Slot) :
    slot.insert (first :: rest) = slot :: first :: rest :=
  if_pos h

/-- A slot is placed after those of the same moment. -/
theorem Slot.insert_cons_of_le {first : Slot} (h : first.moment ≤ slot.moment) (rest : List Slot) :
    slot.insert (first :: rest) = first :: slot.insert rest :=
  if_neg (Nat.not_lt.2 h)

theorem Slot.insert_of_forall_lt (h : ∀ t ∈ agenda, slot.moment < t.moment) :
    slot.insert agenda = slot :: agenda := by
  cases agenda with
  | nil => rfl
  | cons first rest => exact Slot.insert_cons_of_lt (h first (.head rest)) rest

/-- An agenda stays in order when a slot is inserted. -/
theorem InOrder.insert (h : InOrder agenda) (slot : Slot) : InOrder (slot.insert agenda) := by
  induction agenda with
  | nil => exact List.pairwise_singleton _ slot
  | cons first rest ih =>
    obtain ⟨hfirst, hrest⟩ := List.pairwise_cons.1 h
    rcases Nat.lt_or_ge slot.moment first.moment with hlt | hge
    · rw [Slot.insert_cons_of_lt hlt]
      refine List.pairwise_cons.2 ⟨fun t ht => ?_, h⟩
      rcases List.mem_cons.1 ht with rfl | ht
      · exact hlt.le
      · exact hlt.le.trans (hfirst t ht)
    · rw [Slot.insert_cons_of_le hge]
      refine List.pairwise_cons.2 ⟨fun t ht => ?_, ih hrest⟩
      rcases Slot.mem_insert.1 ht with rfl | ht
      · exact hge
      · exact hfirst t ht

/-- The tasks of an agenda that satisfy a condition. -/
def onlyTasks (P : Nat → Bool) (agenda : List Slot) : List Slot :=
  agenda.filter fun t => P t.task

theorem onlyTasks_cons (P : Nat → Bool) (slot : Slot) (agenda : List Slot) :
    onlyTasks P (slot :: agenda) =
      if P slot.task then slot :: onlyTasks P agenda else onlyTasks P agenda :=
  List.filter_cons

/-- A task that is put among all tasks is put among those that satisfy the condition. -/
theorem onlyTasks_insert (h : P slot.task = true) (horder : InOrder agenda) :
    onlyTasks P (slot.insert agenda) = slot.insert (onlyTasks P agenda) := by
  induction agenda with
  | nil => exact (onlyTasks_cons P slot []).trans (if_pos h)
  | cons first rest ih =>
    obtain ⟨hfirst, hrest⟩ := List.pairwise_cons.1 horder
    rcases Nat.lt_or_ge slot.moment first.moment with hlt | hge
    · have hall : ∀ t ∈ onlyTasks P (first :: rest), slot.moment < t.moment := by
        intro t ht
        rcases List.mem_cons.1 (List.mem_of_mem_filter ht) with rfl | ht
        · exact hlt
        · exact hlt.trans_le (hfirst t ht)
      rw [Slot.insert_cons_of_lt hlt, onlyTasks_cons, if_pos h, Slot.insert_of_forall_lt hall]
    · rw [Slot.insert_cons_of_le hge, onlyTasks_cons, onlyTasks_cons, ih hrest]
      split
      · rw [Slot.insert_cons_of_le hge]
      · rfl

theorem onlyTasks_insert_of_not (h : P slot.task = false) (agenda : List Slot) :
    onlyTasks P (slot.insert agenda) = onlyTasks P agenda := by
  induction agenda with
  | nil => exact (onlyTasks_cons P slot []).trans (if_neg (h ▸ Bool.false_ne_true))
  | cons first rest ih =>
    rcases Nat.lt_or_ge slot.moment first.moment with hlt | hge
    · rw [Slot.insert_cons_of_lt hlt, onlyTasks_cons, if_neg (h ▸ Bool.false_ne_true)]
    · rw [Slot.insert_cons_of_le hge, onlyTasks_cons, onlyTasks_cons, ih]

/-- Leaving tasks out commutes with placing what comes next. -/
theorem onlyTasks_place (h : P slot.task = true) (horder : InOrder others) (next : Next) :
    onlyTasks P (next.place slot others) = next.place slot (onlyTasks P others) := by
  cases next with
  | ended => rfl
  | atOnce stage => exact (onlyTasks_cons P _ others).trans (if_pos h)
  | later ms stage => exact onlyTasks_insert h horder

theorem onlyTasks_place_of_not (h : P slot.task = false) (next : Next) :
    onlyTasks P (next.place slot others) = onlyTasks P others := by
  cases next with
  | ended => rfl
  | atOnce stage => exact (onlyTasks_cons P _ others).trans (if_neg (h ▸ Bool.false_ne_true))
  | later ms stage =>
    have htask : P (Slot.mk (slot.moment + ms) slot.task (slot.turns + 1) stage).task = false := h
    exact onlyTasks_insert_of_not htask others

/-- After a turn the agenda is in order, and nobody is late. -/
theorem InOrder.place (h : InOrder (slot :: others)) (next : Next) :
    InOrder (next.place slot others) ∧ ∀ t ∈ next.place slot others, slot.moment ≤ t.moment := by
  obtain ⟨hfirst, hothers⟩ := List.pairwise_cons.1 h
  cases next with
  | ended => exact ⟨hothers, hfirst⟩
  | atOnce stage =>
    refine ⟨List.pairwise_cons.2 ⟨hfirst, hothers⟩, fun t ht => ?_⟩
    rcases List.mem_cons.1 ht with rfl | ht
    · exact Nat.le_refl _
    · exact hfirst t ht
  | later ms stage =>
    refine ⟨InOrder.insert hothers _, fun t ht => ?_⟩
    rcases Slot.mem_insert.1 ht with rfl | ht
    · exact Nat.le_add_right _ _
    · exact hfirst t ht

end Agenda

/-! ### Steps -/

namespace Timeline

variable {E E' : Conditions} {s s' : Timeline} {slot : Slot} {others : List Slot}

/-- The agenda is in order, and nobody is late. -/
structure Orderly (s : Timeline) : Prop where
  sorted : InOrder s.agenda
  ahead : ∀ t ∈ s.agenda, s.now ≤ t.moment

theorem orderly_start (b : Backend) (routines : List Routine) : (start b routines).Orderly := by
  have hzero : ∀ t ∈ (start b routines).agenda, t.moment = 0 := by
    intro t ht
    obtain ⟨i, hi, rfl⟩ := List.mem_mapIdx.1 ht
    rfl
  refine ⟨List.pairwise_of_forall_mem_list ?_, fun t _ => Nat.zero_le _⟩
  intro t ht u hu
  rw [hzero t ht]
  exact Nat.zero_le _

theorem step_eq (h : s.agenda = slot :: others) :
    s.step E =
      { now := slot.moment
        backend := (E.turn slot s.backend).backend
        agenda := (E.turn slot s.backend).next.place slot others
        past := s.past ++
          ((E.turn slot s.backend).act.map (Record.mk slot.moment slot.task)).toList } := by
  unfold step
  rw [h]

theorem step_eq_self (h : s.agenda = []) : s.step E = s := by
  unfold step
  rw [h]

theorem run_succ (E : Conditions) (s : Timeline) (n : Nat) :
    s.run E (n + 1) = (s.run E n).step E :=
  Function.iterate_succ_apply' (Timeline.step E) n s

theorem run_add (E : Conditions) (s : Timeline) (m n : Nat) :
    s.run E (m + n) = (s.run E m).run E n := by
  rw [Nat.add_comm]
  exact Function.iterate_add_apply (Timeline.step E) n m s

/-- A step adds at most one act, to the task whose turn it is. -/
theorem own_step (h : s.agenda = slot :: others) (task : Nat) :
    (s.step E).own task = s.own task ++
      if slot.task = task then
        ((E.turn slot s.backend).act.map fun act => (slot.moment, act)).toList
      else [] := by
  unfold Timeline.own
  rw [step_eq h, List.filter_append, List.map_append]
  congr 1
  cases (E.turn slot s.backend).act with
  | none =>
    split
    · rfl
    · rfl
  | some act =>
    split
    · rename_i htask
      simp [htask]
    · rename_i htask
      simp [htask]

/-- A step keeps the agenda in order, and nobody comes late. -/
theorem Orderly.step (h : s.Orderly) (E : Conditions) : (s.step E).Orderly := by
  cases hagenda : s.agenda with
  | nil =>
    rw [step_eq_self hagenda]
    exact h
  | cons slot others =>
    have hplace := InOrder.place (hagenda ▸ h.sorted) (E.turn slot s.backend).next
    rw [step_eq hagenda]
    exact ⟨hplace.1, hplace.2⟩

theorem Orderly.run (h : s.Orderly) (E : Conditions) (n : Nat) : (s.run E n).Orderly := by
  induction n with
  | zero => exact h
  | succ n ih =>
    rw [run_succ]
    exact ih.step E

/-- Whatever is done before a moment has been done. -/
def DoneBefore (s : Timeline) (moment : Nat) : Prop :=
  ∀ t ∈ s.agenda, moment ≤ t.moment

/-- What was done is not undone, and what is done from now on is done no earlier than any task goes
on. -/
theorem exists_past (horder : InOrder s.agenda) (E : Conditions) (n : Nat) :
    ∃ later, (s.run E n).past = s.past ++ later ∧
      ∀ moment, s.DoneBefore moment → ∀ e ∈ later, moment ≤ e.moment := by
  -- The order of the agenda, and that nothing is done after its first place, carry the induction.
  suffices hall : InOrder (s.run E n).agenda ∧
      (∀ moment, s.DoneBefore moment → (s.run E n).DoneBefore moment) ∧
      ∃ later, (s.run E n).past = s.past ++ later ∧
        ∀ moment, s.DoneBefore moment → ∀ e ∈ later, moment ≤ e.moment from hall.2.2
  induction n with
  | zero => exact ⟨horder, fun _ h => h, [], (List.append_nil _).symm, by simp⟩
  | succ n ih =>
    obtain ⟨horder, hdone, later, hpast, hlater⟩ := ih
    rw [run_succ]
    cases hfirst : (s.run E n).agenda with
    | nil =>
      rw [step_eq_self hfirst]
      exact ⟨horder, hdone, later, hpast, hlater⟩
    | cons slot others =>
      have hplace := InOrder.place (hfirst ▸ horder) (E.turn slot (s.run E n).backend).next
      have hmoment (moment : Nat) (h : s.DoneBefore moment) : moment ≤ slot.moment :=
        hdone moment h slot (hfirst ▸ .head others)
      rw [step_eq hfirst, hpast, List.append_assoc]
      refine ⟨hplace.1, fun moment h t ht => (hmoment moment h).trans (hplace.2 t ht), _, rfl,
        fun moment h e he => ?_⟩
      rcases List.mem_append.1 he with he | he
      · exact hlater moment h e he
      · obtain ⟨act, -, rfl⟩ := Option.map_eq_some_iff.1 (Option.mem_toList.1 he)
        exact hmoment moment h

/-- The same of what one task did. -/
theorem exists_own (horder : InOrder s.agenda) (E : Conditions) (n task : Nat) :
    ∃ later, (s.run E n).own task = s.own task ++ later ∧
      ∀ moment, s.DoneBefore moment → ∀ a ∈ later, moment ≤ a.1 := by
  obtain ⟨later, hpast, hlater⟩ := exists_past horder E n
  refine ⟨(later.filter fun e => e.task = task).map fun e => (e.moment, e.act), ?_, ?_⟩
  · unfold Timeline.own
    rw [hpast, List.filter_append, List.map_append]
  · intro moment hdone a ha
    obtain ⟨e, he, rfl⟩ := List.mem_map.1 ha
    exact hlater moment hdone e (List.mem_of_mem_filter he)

end Timeline

/-! ### Tasks that keep to some calls -/

/-- Every call satisfies a condition. -/
def OnlyCalls (Q : Call → Prop) (_ : List Move) (call : Option Call) : Prop :=
  ∀ x, call = some x → Q x

/-- A task that makes only calls that satisfy a condition, as long as its routine obeys a law. -/
def Stage.Keeps (Q : Call → Prop) (law : Routine → Prop) : Stage → Prop
  | first r | pause r => law r
  | cut => True
  | work rest => ∃ past, Process.RoundHolds (.history (OnlyCalls Q)) (fun r _ => law r) rest past
  | call x _ _ next =>
    ∃ past, Q x ∧ ∀ reply, Process.RoundHolds (.history (OnlyCalls Q)) (fun r _ => law r)
      (next reply) (past ++ [.call x reply])

/-- The same of where a task stands after a turn. -/
def Next.Keeps (Q : Call → Prop) (law : Routine → Prop) : Next → Prop
  | ended => True
  | atOnce stage | later _ stage => stage.Keeps Q law

section Keeps

variable {Q : Call → Prop} {law : Routine → Prop} {slot : Slot}

/-- A pause keeps the law of the routine. -/
theorem Conditions.keeps_rest (E : Conditions) {r : Routine} (h : law r) (slot : Slot) (ms : Nat) :
    (E.rest slot r ms).Keeps Q law := by
  unfold Conditions.rest
  split
  · split
    · trivial
    · exact h
  · exact h

theorem Conditions.keeps_ask (E : Conditions) (slot : Slot) (x : Call) (limit : Nat)
    {next : Reply x.Answer → Program (Option (Routine × Nat))}
    (h : ∀ fate, (Stage.call x limit fate next).Keeps Q law) :
    (E.ask slot x limit next).Keeps Q law := by
  unfold Conditions.ask
  dsimp only
  split
  · exact h (E.fate slot.task slot.turns slot.moment x)
  · exact h (E.fate slot.task slot.turns slot.moment x)

/-- A turn keeps the law: the invariant step of every run. -/
theorem Stage.Keeps.turn (h : slot.stage.Keeps Q law)
    (hlaw : Process.Lawful (.history (OnlyCalls Q)) fun r _ => law r) (E : Conditions)
    (b : Backend) : (E.turn slot b).next.Keeps Q law := by
  obtain ⟨moment, task, turns, stage⟩ := slot
  cases stage with
  | first r => exact ⟨[], hlaw r [] h⟩
  | pause r =>
    unfold Conditions.turn
    dsimp only
    split
    · trivial
    · exact ⟨[], hlaw r [] h⟩
  | cut => trivial
  | call x limit fate next =>
    obtain ⟨past, -, hnext⟩ := h
    exact ⟨_, hnext _⟩
  | work rest =>
    obtain ⟨past, hrest⟩ := h
    cases rest with
    | done result =>
      cases result with
      | none => trivial
      | some next => exact E.keeps_rest (hrest _ _ rfl) _ _
    | clock next => exact ⟨_, hrest.2 _ _ rfl⟩
    | call x limit next =>
      exact E.keeps_ask _ x limit fun fate => ⟨past, hrest.1 x rfl, fun reply => hrest.2 reply _ rfl⟩

/-- What is placed keeps the law, and the others are untouched. -/
theorem Next.Keeps.place {others : List Slot} {next : Next} (h : next.Keeps Q law) :
    ∀ t ∈ next.place slot others, t ∈ others ∨ t.task = slot.task ∧ t.stage.Keeps Q law := by
  intro t ht
  cases next with
  | ended => exact Or.inl ht
  | atOnce stage =>
    rcases List.mem_cons.1 ht with rfl | ht
    · exact Or.inr ⟨rfl, h⟩
    · exact Or.inl ht
  | later ms stage =>
    rcases Slot.mem_insert.1 ht with rfl | ht
    · exact Or.inr ⟨rfl, h⟩
    · exact Or.inl ht

end Keeps

/-! ### Some tasks without the others -/

/-- The tasks that satisfy `P` see nothing of the others: each task makes the calls that satisfy its
`Q`, those of the one kind have the same answers on backends that `V` relates, and those of the other
kind leave them related. -/
structure Separation (P : Nat → Bool) (Q : Nat → Call → Prop) (law : Nat → Routine → Prop)
    (V : Backend → Backend → Prop) : Prop where
  lawful : ∀ i, Process.Lawful (.history (OnlyCalls (Q i))) fun r _ => law i r
  seen : ∀ i x, P i = true → Q i x → ∀ b b', V b b' →
    (x.answer b).1 = (x.answer b').1 ∧ V (x.answer b).2 (x.answer b').2
  hidden : ∀ i x, P i = false → Q i x → ∀ b b', V b b' → V (x.answer b).2 b'

/-- Conditions are the same for some tasks, as far as their calls satisfy `Q`. -/
structure Conditions.Agree (P : Nat → Bool) (Q : Nat → Call → Prop) (E E' : Conditions) :
    Prop where
  clock : E.clock = E'.clock
  cancel : E.cancel = E'.cancel
  fate : ∀ i turns moment x, P i = true → Q i x → E.fate i turns moment x = E'.fate i turns moment x

namespace Timeline

variable {P : Nat → Bool} {Q : Nat → Call → Prop} {law : Nat → Routine → Prop}
  {V : Backend → Backend → Prop} {E E' : Conditions} {s s' : Timeline} {slot : Slot}

/-- One state is what the tasks that satisfy `P` see of another one. -/
structure Shadows (P : Nat → Bool) (Q : Nat → Call → Prop) (law : Nat → Routine → Prop)
    (V : Backend → Backend → Prop) (s s' : Timeline) : Prop where
  orderly : s.Orderly
  keeps : ∀ t ∈ s.agenda, t.stage.Keeps (Q t.task) (law t.task)
  agenda : s'.agenda = onlyTasks P s.agenda
  past : s'.past = s.past.filter fun e => P e.task
  view : V s.backend s'.backend

/-- A turn of one of the tasks is the same on backends that are seen as the same. -/
theorem turn_eq (hsep : Separation P Q law V) (hagree : Conditions.Agree P Q E E')
    (hP : P slot.task = true) (hkeeps : slot.stage.Keeps (Q slot.task) (law slot.task))
    {b b' : Backend} (hV : V b b') :
    (E.turn slot b).act = (E'.turn slot b').act ∧ (E.turn slot b).next = (E'.turn slot b').next ∧
      V (E.turn slot b).backend (E'.turn slot b').backend := by
  have hrest (r : Routine) (ms : Nat) : E.rest slot r ms = E'.rest slot r ms := by
    unfold Conditions.rest
    rw [hagree.cancel]
  have hnotices : E.notices slot = E'.notices slot := by
    unfold Conditions.notices
    rw [hagree.cancel]
  obtain ⟨moment, task, turns, stage⟩ := slot
  cases stage with
  | first r => exact ⟨rfl, rfl, hV⟩
  | pause r =>
    unfold Conditions.turn
    dsimp only
    rw [hnotices]
    split
    · exact ⟨rfl, rfl, hV⟩
    · exact ⟨rfl, rfl, hV⟩
  | cut => exact ⟨rfl, rfl, hV⟩
  | call x limit fate next =>
    obtain ⟨past, hQ, -⟩ := hkeeps
    obtain ⟨hanswer, hafter⟩ := hsep.seen task x hP hQ b b' hV
    have hreply := fate.reply_eq limit hanswer
    refine ⟨?_, ?_, ?_⟩
    · exact congrArg (fun reply => some (Act.moved (.call x reply))) hreply
    · exact congrArg (fun reply => Next.atOnce (.work (next reply))) hreply
    · show V ((Move.call x (fate.reply x limit b)).after b)
        ((Move.call x (fate.reply x limit b')).after b')
      rw [fate.after_reply, fate.after_reply]
      -- A call that is not answered in time leaves both backends as they are.
      cases fate.isInTime limit with
      | true => exact hafter
      | false => exact hV
  | work rest =>
    obtain ⟨past, hround⟩ := hkeeps
    cases rest with
    | done result =>
      cases result with
      | none => exact ⟨rfl, rfl, hV⟩
      | some next => exact ⟨rfl, hrest _ _, hV⟩
    | clock next =>
      unfold Conditions.turn
      dsimp only
      rw [hagree.clock]
      exact ⟨rfl, rfl, hV⟩
    | call x limit next =>
      refine ⟨rfl, ?_, hV⟩
      show E.ask _ x limit next = E'.ask _ x limit next
      unfold Conditions.ask
      rw [hagree.fate task turns moment x hP (hround.1 x rfl)]

/-- A turn of one of the others is not seen. -/
theorem hidden_turn (hsep : Separation P Q law V) (hP : P slot.task = false)
    (hkeeps : slot.stage.Keeps (Q slot.task) (law slot.task)) {b b' : Backend} (hV : V b b') :
    V (E.turn slot b).backend b' := by
  obtain ⟨moment, task, turns, stage⟩ := slot
  cases stage with
  | first r => exact hV
  | pause r =>
    unfold Conditions.turn
    dsimp only
    split
    · exact hV
    · exact hV
  | cut => exact hV
  | call x limit fate next =>
    obtain ⟨past, hQ, -⟩ := hkeeps
    show V ((Move.call x (fate.reply x limit b)).after b) b'
    rw [fate.after_reply]
    cases fate.isInTime limit with
    | true => exact hsep.hidden task x hP hQ b b' hV
    | false => exact hV
  | work rest =>
    cases rest with
    | done result => cases result <;> exact hV
    | clock next => exact hV
    | call x limit next => exact hV

/-- A step is a step of what is seen, or is not seen. -/
theorem Shadows.step (h : Shadows P Q law V s s') (hsep : Separation P Q law V)
    (hagree : Conditions.Agree P Q E E') :
    Shadows P Q law V (s.step E) s' ∨ Shadows P Q law V (s.step E) (s'.step E') := by
  cases hagenda : s.agenda with
  | nil =>
    rw [step_eq_self hagenda]
    exact Or.inl h
  | cons slot others =>
    have hkeeps := h.keeps slot (hagenda ▸ .head others)
    have hsorted := (List.pairwise_cons.1 (hagenda ▸ h.orderly.sorted)).2
    have hkeeps' : ∀ t ∈ (s.step E).agenda, t.stage.Keeps (Q t.task) (law t.task) := by
      rw [step_eq hagenda]
      intro t ht
      rcases (hkeeps.turn (hsep.lawful slot.task) E s.backend).place t ht with ht | ⟨htask, ht⟩
      · exact h.keeps t (hagenda ▸ .tail slot ht)
      · rw [htask]
        exact ht
    have hold := h.agenda
    rw [hagenda, onlyTasks_cons] at hold
    cases hP : P slot.task with
    | false =>
      -- The task is not among those that are seen, so the other state waits.
      rw [if_neg (hP ▸ Bool.false_ne_true)] at hold
      refine Or.inl ⟨h.orderly.step E, hkeeps', ?_, ?_, ?_⟩
      · rw [step_eq hagenda, onlyTasks_place_of_not hP]
        exact hold
      · rw [step_eq hagenda, List.filter_append, ← h.past]
        cases (E.turn slot s.backend).act <;> simp [hP]
      · rw [step_eq hagenda]
        exact hidden_turn hsep hP hkeeps h.view
    | true =>
      -- Both states begin with the same task, which takes its turn in both.
      rw [if_pos hP] at hold
      obtain ⟨hact, hnext, hview⟩ := turn_eq hsep hagree hP hkeeps h.view
      refine Or.inr ⟨h.orderly.step E, hkeeps', ?_, ?_, ?_⟩
      · rw [step_eq hagenda, step_eq hold, onlyTasks_place hP hsorted, hnext]
      · rw [step_eq hagenda, step_eq hold, List.filter_append, ← h.past, hact]
        cases (E'.turn slot s'.backend).act <;> simp [hP]
      · rw [step_eq hagenda, step_eq hold]
        exact hview

/-- A run is seen as a run of the tasks that satisfy `P` alone. -/
theorem Shadows.run (h : Shadows P Q law V s s') (hsep : Separation P Q law V)
    (hagree : Conditions.Agree P Q E E') (n : Nat) :
    ∃ m, Shadows P Q law V (s.run E n) (s'.run E' m) := by
  induction n with
  | zero => exact ⟨0, h⟩
  | succ n ih =>
    obtain ⟨m, hm⟩ := ih
    rw [run_succ]
    rcases hm.step hsep hagree with hm | hm
    · exact ⟨m, hm⟩
    · exact ⟨m + 1, by rw [run_succ]; exact hm⟩

/-! ### Two runs -/

/-- What was done before a moment. -/
def before (moment : Nat) (acts : List (Nat × Act)) : List (Nat × Act) :=
  acts.filter fun a => a.1 < moment

/-- A task does the same in two runs: in one of them it has gone on with what it did in the other
one, and it did the same before a moment until which both are done. -/
structure DoesSame (s s' : Timeline) (task : Nat) : Prop where
  goesOn : s.own task <+: s'.own task ∨ s'.own task <+: s.own task
  before : ∀ moment, s.DoneBefore moment → s'.DoneBefore moment →
    before moment (s.own task) = before moment (s'.own task)

theorem DoesSame.symm {task : Nat} (h : s.DoesSame s' task) : s'.DoesSame s task :=
  ⟨h.goesOn.symm, fun moment hdone hdone' => (h.before moment hdone' hdone).symm⟩

/-- A task that goes on after all that is done before a moment does nothing before it. -/
theorem DoesSame.of_append {task : Nat} {later : List (Nat × Act)}
    (hown : s'.own task = s.own task ++ later)
    (hlater : ∀ moment, s.DoneBefore moment → ∀ a ∈ later, moment ≤ a.1) :
    s.DoesSame s' task := by
  refine ⟨Or.inl ⟨later, hown.symm⟩, fun moment hdone _ => ?_⟩
  have hnothing : Timeline.before moment later = [] :=
    List.filter_eq_nil_iff.2 fun a ha =>
      decide_eq_true_iff.not.2 (Nat.not_lt.2 (hlater moment hdone a ha))
  unfold Timeline.before at hnothing ⊢
  rw [hown, List.filter_append, hnothing, List.append_nil]

/-- A task that both timelines have does the same in both. -/
theorem Shadows.own (h : Shadows P Q law V s s') {i : Nat} (hP : P i = true) :
    s'.own i = s.own i := by
  unfold Timeline.own
  rw [h.past, List.filter_filter]
  congr 1
  refine List.filter_congr fun e _ => ?_
  rcases Decidable.em (e.task = i) with rfl | hne
  · rw [hP, Bool.and_true]
  · rw [decide_eq_false hne, Bool.false_and]

/-- Two runs of which one is seen to come as far as the other one. -/
theorem Shadows.doesSame_of_le {s₁ s₂ : Timeline} {m₁ m₂ : Nat}
    (h₁ : Shadows P Q law V s₁ (s'.run E' m₁)) (h₂ : Shadows P Q law V s₂ (s'.run E' m₂))
    (hle : m₁ ≤ m₂) {i : Nat} (hP : P i = true) : s₁.DoesSame s₂ i := by
  obtain ⟨k, rfl⟩ := Nat.exists_eq_add_of_le hle
  have horder : InOrder (s'.run E' m₁).agenda := by
    rw [h₁.agenda]
    exact h₁.orderly.sorted.filter _
  obtain ⟨later, hown, hlater⟩ := exists_own horder E' k i
  rw [← run_add, h₂.own hP, h₁.own hP] at hown
  refine .of_append hown fun moment hdone => hlater moment ?_
  intro t ht
  rw [h₁.agenda] at ht
  exact hdone t (List.mem_of_mem_filter ht)

/-- Under conditions that are the same for some tasks, these tasks do the same. -/
theorem Shadows.doesSame (h : Shadows P Q law V s s') (hsep : Separation P Q law V)
    (hagree : Conditions.Agree P Q E E') (n n' : Nat) {i : Nat} (hP : P i = true) :
    (s.run E n).DoesSame (s.run E' n') i := by
  obtain ⟨m, hm⟩ := h.run hsep hagree n
  obtain ⟨m', hm'⟩ := h.run hsep ⟨rfl, rfl, fun _ _ _ _ _ _ => rfl⟩ n'
  rcases Nat.le_total m m' with hle | hle
  · exact hm.doesSame_of_le hm' hle hP
  · exact (hm'.doesSame_of_le hm hle hP).symm

end Timeline

end Workplane
