import Mathlib.Algebra.BigOperators.Group.List.Basic
import Workplane.Proofs.Background.Timeline

/-!
# Time goes on

The turns that a task takes at once come to an end, since the program that it carries out is a finite
tree; then it returns or waits behind the tasks that go on at the same moment
(`Timeline.exists_lastTurn`).  So a task gets its turn if all tasks before it go on at the same
moment (`Timeline.exists_first`), and if all pauses take a while, time comes to any moment
(`Timeline.exists_doneBefore`).
-/

namespace Workplane

/-- The task was cancelled in its pause. -/
def Stage.isCut : Stage → Bool
  | cut => true
  | _ => false

namespace Timeline

variable {E : Conditions} {s : Timeline} {slot : Slot} {others : List Slot}

/-! ### The last turn of a task before it waits -/

/-- The first task is about to take a turn after which it does not go on at once. -/
def AtLastTurn (E : Conditions) (s : Timeline) (slot : Slot) (others : List Slot) : Prop :=
  ∃ turns stage, s.agenda = ⟨slot.moment, slot.task, turns, stage⟩ :: others ∧
    stage.isCut = slot.stage.isCut ∧
    ∀ next, (E.turn ⟨slot.moment, slot.task, turns, stage⟩ s.backend).next ≠ .atOnce next

/-- A task that goes on at once is the first one again. -/
theorem agenda_step_atOnce (h : s.agenda = slot :: others) {stage : Stage}
    (hnext : (E.turn slot s.backend).next = .atOnce stage) :
    (s.step E).agenda = ⟨slot.moment, slot.task, slot.turns + 1, stage⟩ :: others := by
  rw [step_eq h, hnext]
  rfl

/-- A program that runs reaches the last of its turns. -/
theorem exists_lastTurn_work (p : Program (Option (Routine × Nat))) {moment task turns : Nat}
    (h : s.agenda = ⟨moment, task, turns, .work p⟩ :: others) :
    ∃ n, AtLastTurn E (s.run E n) ⟨moment, task, turns, .work p⟩ others := by
  suffices hall : ∃ n turns' stage,
      (s.run E n).agenda = ⟨moment, task, turns', stage⟩ :: others ∧ stage.isCut = false ∧
        ∀ next, (E.turn ⟨moment, task, turns', stage⟩ (s.run E n).backend).next ≠ .atOnce next by
    obtain ⟨n, turns', stage, hlast⟩ := hall
    exact ⟨n, turns', stage, hlast⟩
  induction p generalizing s turns with
  | done result =>
    refine ⟨0, turns, _, h, rfl, fun next => ?_⟩
    cases result with
    | none => exact nofun
    | some result =>
      show E.rest _ _ _ ≠ _
      unfold Conditions.rest
      split
      · split
        · exact nofun
        · exact nofun
      · exact nofun
  | clock next ih =>
    obtain ⟨n, hn⟩ := ih _ (agenda_step_atOnce (E := E) h rfl)
    exact ⟨n + 1, hn⟩
  | call x limit next ih =>
    -- A call that takes no time is over at once, and the program goes on.
    rcases Decidable.em ((E.fate task turns moment x).took limit = 0) with hzero | hlater
    · have hask : (E.turn ⟨moment, task, turns, .work (.call x limit next)⟩ s.backend).next =
          .atOnce (.call x limit (E.fate task turns moment x) next) := if_pos hzero
      have hcalls := agenda_step_atOnce h hask
      obtain ⟨n, hn⟩ := ih _ (agenda_step_atOnce (E := E) hcalls rfl)
      exact ⟨n + 1 + 1, hn⟩
    · have hask : (E.turn ⟨moment, task, turns, .work (.call x limit next)⟩ s.backend).next =
          .later ((E.fate task turns moment x).took limit)
            (.call x limit (E.fate task turns moment x) next) := if_neg hlater
      exact ⟨0, turns, _, h, rfl, fun next' heq => nomatch hask.symm.trans heq⟩

/-- The turns that the first task takes at once come to an end. -/
theorem exists_lastTurn (E : Conditions) (h : s.agenda = slot :: others) :
    ∃ n, AtLastTurn E (s.run E n) slot others := by
  -- After a step, the task carries out a program.
  have hwork {rest : Program (Option (Routine × Nat))} (hcut : slot.stage.isCut = false)
      (hnext : (E.turn slot s.backend).next = .atOnce (.work rest)) :
      ∃ n, AtLastTurn E (s.run E n) slot others := by
    obtain ⟨n, turns, stage, hagenda, hstage, hlast⟩ :=
      exists_lastTurn_work (E := E) rest (agenda_step_atOnce h hnext)
    exact ⟨n + 1, turns, stage, hagenda, hstage.trans hcut.symm, hlast⟩
  obtain ⟨moment, task, turns, stage⟩ := slot
  cases stage with
  | first r => exact hwork rfl rfl
  | pause r =>
    cases hnotices : E.notices ⟨moment, task, turns, .pause r⟩ with
    | true =>
      have hnext : (E.turn ⟨moment, task, turns, .pause r⟩ s.backend).next = .ended := by
        unfold Conditions.turn
        dsimp only
        rw [if_pos hnotices]
      exact ⟨0, turns, _, h, rfl, fun next heq => nomatch hnext.symm.trans heq⟩
    | false =>
      have hnext : (E.turn ⟨moment, task, turns, .pause r⟩ s.backend).next =
          .atOnce (.work r.round) := by
        unfold Conditions.turn
        dsimp only
        rw [if_neg (Bool.eq_false_iff.1 hnotices)]
      exact hwork rfl hnext
  | cut => exact ⟨0, turns, _, h, rfl, fun next => nofun⟩
  | work p => exact exists_lastTurn_work p h
  | call x limit fate next => exact hwork rfl rfl

/-! ### Tasks that go on at the same moment -/

/-- A slot is placed behind all that are due no later. -/
theorem insert_append {us vs : List Slot}
    (h : ∀ u ∈ us, u.moment ≤ slot.moment) : slot.insert (us ++ vs) = us ++ slot.insert vs := by
  induction us with
  | nil => rfl
  | cons u us ih =>
    rw [List.cons_append, Slot.insert_cons_of_le (h u (.head us)), List.cons_append,
      ih fun u hu => h u (.tail _ hu)]

/-- A task gets its turn if those before it go on at the same moment. -/
theorem exists_first (E : Conditions) {us vs : List Slot} (h : s.agenda = us ++ slot :: vs)
    (hus : ∀ u ∈ us, u.moment = slot.moment) :
    ∃ n vs', (s.run E n).agenda = slot :: vs' := by
  induction us generalizing s vs with
  | nil => exact ⟨0, vs, h⟩
  | cons u us ih =>
    obtain ⟨n, turns, stage, hagenda, -, hlast⟩ := exists_lastTurn E h
    -- The first task ends, or goes on behind all that have their turn at this moment.
    have hrest : ∃ vs', ((s.run E n).step E).agenda = us ++ slot :: vs' := by
      rw [step_eq hagenda]
      dsimp only
      generalize (E.turn _ (s.run E n).backend).next = next at hlast
      cases next with
      | ended => exact ⟨vs, rfl⟩
      | atOnce stage => exact absurd rfl (hlast stage)
      | later ms stage =>
        have hmoment : u.moment = slot.moment := hus u (.head us)
        let t : Slot := ⟨u.moment + ms, u.task, turns + 1, stage⟩
        have hlater : slot.moment ≤ t.moment := hmoment ▸ Nat.le_add_right u.moment ms
        have hinsert : t.insert (us ++ slot :: vs) = us ++ slot :: t.insert vs := by
          rw [insert_append fun u' hu' => (hus u' (.tail u hu')).trans_le hlater,
            Slot.insert_cons_of_le hlater]
        exact ⟨t.insert vs, hinsert⟩
    obtain ⟨vs', hvs'⟩ := hrest
    obtain ⟨m, vs'', hm⟩ := ih hvs' fun t ht => hus t (.tail u ht)
    refine ⟨n + 1 + m, vs'', ?_⟩
    rw [run_add, run_succ]
    exact hm

end Timeline

/-! ### Pauses that take a while -/

/-- All pauses of a routine take a while. -/
def Routine.Pauses : Routine → Prop
  | stop => True
  | forever _ afterSuccess afterFailure => 0 < afterSuccess ∧ 0 < afterFailure
  | untilSuccess _ afterFailure next => 0 < afterFailure ∧ next.Pauses

/-- All results of a program satisfy a condition. -/
def Program.Results {α : Type} (post : α → Prop) : Program α → Prop
  | done a => post a
  | call _ _ next => ∀ reply, (next reply).Results post
  | clock next => ∀ now, (next now).Results post

theorem Program.results_bind {α β : Type} {post : β → Prop} {p : Program α} {f : α → Program β}
    (h : ∀ a, (f a).Results post) : (p >>= f).Results post := by
  induction p with
  | done a => exact h a
  | call x limit next ih => exact fun reply => ih reply
  | clock next ih => exact fun now => ih now

/-- After a round comes a pause that takes a while, if there is another round. -/
def PausesAfter (next : Option (Routine × Nat)) : Prop :=
  ∀ r ms, next = some (r, ms) → 0 < ms ∧ r.Pauses

/-- A round ends in a pause. -/
theorem Routine.Pauses.round {r : Routine} (h : r.Pauses) : r.round.Results PausesAfter := by
  induction r with
  | stop => exact nofun
  | forever work afterSuccess afterFailure =>
    refine Program.results_bind fun ok => ?_
    rintro _ _ hnext
    obtain ⟨rfl, rfl⟩ := Prod.mk.inj (Option.some.inj hnext)
    refine ⟨?_, h⟩
    split
    · exact h.1
    · exact h.2
  | untilSuccess work afterFailure next ih =>
    refine Program.results_bind fun ok => ?_
    cases ok with
    | true => exact ih h.2
    | false =>
      rintro _ _ hnext
      obtain ⟨rfl, rfl⟩ := Prod.mk.inj (Option.some.inj hnext)
      exact ⟨h.1, h⟩

/-- All pauses that a task makes from now on take a while. -/
def Stage.Pauses : Stage → Prop
  | first r | pause r => r.Pauses
  | cut => True
  | work rest => rest.Results PausesAfter
  | call _ _ _ next => ∀ reply, (next reply).Results PausesAfter

/-- The same of where a task stands after a turn; what it waits for takes a while, too, unless it was
cancelled. -/
def Next.Pauses : Next → Prop
  | ended => True
  | atOnce stage => stage.Pauses
  | later ms stage => stage.Pauses ∧ (0 < ms ∨ stage.isCut = true)

namespace Timeline

variable {E : Conditions} {s : Timeline} {slot : Slot} {others : List Slot}

theorem pauses_rest {r : Routine} (h : r.Pauses) {ms : Nat} (hms : 0 < ms) :
    (E.rest slot r ms).Pauses := by
  unfold Conditions.rest
  split
  · split
    · exact ⟨trivial, Or.inr rfl⟩
    · exact ⟨h, Or.inl hms⟩
  · exact ⟨h, Or.inl hms⟩

/-- A call keeps a timeline pausing if every reply leads to a pause. -/
theorem pauses_ask {x : Call} {limit : Nat} {next : Reply x.Answer → Program (Option (Routine × Nat))}
    (h : ∀ reply, (next reply).Results PausesAfter) : (E.ask slot x limit next).Pauses := by
  unfold Conditions.ask
  dsimp only
  split
  · exact h
  · rename_i hne
    exact ⟨h, Or.inl (Nat.pos_of_ne_zero hne)⟩

/-- A task whose pauses take a while goes on with such pauses. -/
theorem pauses_turn (h : slot.stage.Pauses) (b : Backend) : (E.turn slot b).next.Pauses := by
  obtain ⟨moment, task, turns, stage⟩ := slot
  cases stage with
  | first r => exact Routine.Pauses.round h
  | pause r =>
    unfold Conditions.turn
    dsimp only
    split
    · trivial
    · exact Routine.Pauses.round h
  | cut => trivial
  | call x limit fate next => exact h _
  | work rest =>
    cases rest with
    | done result =>
      cases result with
      | none => trivial
      | some result =>
        obtain ⟨hms, hr⟩ := h _ _ rfl
        exact pauses_rest hr hms
    | clock next => exact h _
    | call x limit next => exact pauses_ask h

/-- A stage that is cut ends its task. -/
theorem turn_of_isCut (h : slot.stage.isCut = true) (b : Backend) :
    (E.turn slot b).next = .ended := by
  obtain ⟨moment, task, turns, stage⟩ := slot
  cases stage with
  | cut => rfl
  | _ => exact nomatch h

/-- The pauses of all tasks take a while. -/
def Pauses (s : Timeline) : Prop :=
  ∀ t ∈ s.agenda, t.stage.Pauses

/-- A step keeps a timeline pausing. -/
theorem Pauses.step (h : s.Pauses) (E : Conditions) : (s.step E).Pauses := by
  cases hagenda : s.agenda with
  | nil =>
    rw [step_eq_self hagenda]
    exact h
  | cons slot others =>
    have hturn := pauses_turn (E := E) (h slot (hagenda ▸ .head others)) s.backend
    have hothers : ∀ t ∈ others, t.stage.Pauses := fun t ht => h t (hagenda ▸ .tail slot ht)
    rw [step_eq hagenda]
    intro t ht
    revert hturn ht
    dsimp only
    cases (E.turn slot s.backend).next with
    | ended => exact fun _ ht => hothers t ht
    | atOnce stage =>
      intro hturn ht
      rcases List.mem_cons.1 ht with rfl | ht
      · exact hturn
      · exact hothers t ht
    | later ms stage =>
      intro hturn ht
      rcases Slot.mem_insert.1 ht with rfl | ht
      · exact hturn.1
      · exact hothers t ht

theorem Pauses.run (h : s.Pauses) (E : Conditions) (n : Nat) : (s.run E n).Pauses := by
  induction n with
  | zero => exact h
  | succ n ih =>
    rw [run_succ]
    exact ih.step E

/-! ### Moments that time comes to -/

/-- What a task can still do up to a moment. -/
def slack (moment : Nat) (t : Slot) : Nat :=
  moment - t.moment + if t.stage.isCut then 1 else 2

/-- What is left to be done up to a moment. -/
def totalSlack (moment : Nat) (agenda : List Slot) : Nat :=
  (agenda.map (slack moment)).sum

theorem totalSlack_cons (moment : Nat) (t : Slot) (agenda : List Slot) :
    totalSlack moment (t :: agenda) = slack moment t + totalSlack moment agenda := by
  unfold totalSlack
  rw [List.map_cons, List.sum_cons]

theorem totalSlack_insert (moment : Nat) (t : Slot) (agenda : List Slot) :
    totalSlack moment (t.insert agenda) = slack moment t + totalSlack moment agenda := by
  rw [← totalSlack_cons]
  exact ((List.perm_orderedInsert _ t agenda).map _).sum_eq

/-- Less is left to be done when a task has taken its last turn before a moment. -/
theorem AtLastTurn.totalSlack_step_lt (h : AtLastTurn E s slot others) (hpauses : s.Pauses)
    {moment : Nat} (hmoment : slot.moment < moment) :
    totalSlack moment (s.step E).agenda < totalSlack moment (slot :: others) := by
  obtain ⟨turns, stage, hagenda, hcut, hlast⟩ := h
  let last : Slot := ⟨slot.moment, slot.task, turns, stage⟩
  have hmem : last ∈ s.agenda := hagenda ▸ .head others
  have hturn := pauses_turn (E := E) (hpauses last hmem) s.backend
  have hended : slot.stage.isCut = true → (E.turn last s.backend).next = .ended :=
    fun h => turn_of_isCut (hcut.trans h) s.backend
  have hslack : 0 < slack moment slot := by
    unfold slack
    split <;> omega
  rw [step_eq hagenda, totalSlack_cons]
  show totalSlack moment ((E.turn last s.backend).next.place last others) < _
  cases hnext : (E.turn last s.backend).next with
  | ended =>
    show totalSlack moment others < _
    omega
  | atOnce stage' => exact absurd hnext (hlast stage')
  | later ms stage' =>
    rw [hnext] at hturn hended
    have hworks : slot.stage.isCut = false := Bool.eq_false_iff.2 fun h => nomatch hended h
    have hless : slack moment ⟨slot.moment + ms, slot.task, turns + 1, stage'⟩ <
        slack moment slot := by
      unfold slack
      rw [hworks]
      rcases hturn.2 with hms | hcut'
      · split <;> simp only [Bool.false_eq_true, if_false] <;> omega
      · rw [hcut']
        simp only [Bool.false_eq_true, if_false, if_true]
        omega
    show totalSlack moment (Slot.insert ⟨slot.moment + ms, slot.task, turns + 1, stage'⟩ others) < _
    rw [totalSlack_insert]
    omega

/-- If all pauses take a while, a run is done with everything before any moment after some steps. -/
theorem exists_doneBefore (horder : s.Orderly) (h : s.Pauses) (E : Conditions) (moment : Nat) :
    ∃ n, (s.run E n).DoneBefore moment := by
  generalize hslack : totalSlack moment s.agenda = slack
  induction slack using Nat.strong_induction_on generalizing s with
  | _ slack ih =>
    cases hagenda : s.agenda with
    | nil => exact ⟨0, fun t ht => absurd (hagenda ▸ ht) List.not_mem_nil⟩
    | cons slot others =>
      rcases Nat.lt_or_ge slot.moment moment with hlt | hge
      · obtain ⟨n, hlast⟩ := exists_lastTurn E hagenda
        have hless := hlast.totalSlack_step_lt (h.run E n) hlt
        rw [← hagenda, hslack] at hless
        obtain ⟨m, hm⟩ := ih _ hless ((horder.run E n).step E) ((h.run E n).step E) rfl
        refine ⟨n + 1 + m, ?_⟩
        rw [run_add, run_succ]
        exact hm
      · refine ⟨0, fun t ht => ?_⟩
        have hsorted := List.pairwise_cons.1 (hagenda ▸ horder.sorted)
        rcases List.mem_cons.1 (hagenda ▸ ht : t ∈ slot :: others) with rfl | ht
        · exact hge
        · exact hge.trans (hsorted.1 t ht)

end Timeline

end Workplane
