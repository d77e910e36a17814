import Mathlib.Algebra.Order.BigOperators.Group.List
import Mathlib.Algebra.Order.Ring.Nat
import Workplane.Proofs.Program.Undisturbed
import Workplane.Simulation.World

/-!
# Worlds without faults

In a world without faults a round of a task goes as if nothing disturbed it
(`Simulation.World.exists_resume`).  Letting time pass is a loop with a bound on its steps.  Every
step of it takes the first task and has it wake up at a later moment, so what is left to be done
before a moment (`Simulation.World.slack`) gets less, and the bound is never met
(`Simulation.World.runTasks_spec`).
-/

namespace Workplane.Simulation

/-! ### The order of tasks -/

namespace Task

variable {t u : Task} {ts us : List Task}

theorem perm_insert (t : Task) (ts : List Task) : (t.insert ts).Perm (t :: ts) := by
  induction ts with
  | nil => exact List.Perm.refl _
  | cons first rest ih =>
    unfold insert
    split
    · exact List.Perm.refl _
    · exact (ih.cons first).trans (List.Perm.swap t first rest)

theorem mem_insert : u ∈ t.insert ts ↔ u = t ∨ u ∈ ts :=
  (perm_insert t ts).mem_iff.trans List.mem_cons

/-- A task that wakes up no earlier than the first ones comes behind them. -/
theorem insert_append (h : ∀ u ∈ us, u.wakesAt ≤ t.wakesAt) :
    t.insert (us ++ ts) = us ++ t.insert ts := by
  induction us with
  | nil => rfl
  | cons first rest ih =>
    have hfirst : ¬t.wakesAt < first.wakesAt := Nat.not_lt.2 (h first (.head rest))
    rw [List.cons_append, insert, if_neg hfirst, ih fun u hu => h u (.tail first hu)]
    rfl

theorem pairwise_insert (h : ts.Pairwise (·.wakesAt ≤ ·.wakesAt)) :
    (t.insert ts).Pairwise (·.wakesAt ≤ ·.wakesAt) := by
  induction ts with
  | nil => exact List.pairwise_singleton _ t
  | cons first rest ih =>
    obtain ⟨hfirst, hrest⟩ := List.pairwise_cons.1 h
    unfold insert
    split
    · rename_i hlt
      refine List.pairwise_cons.2 ⟨fun u hu => ?_, h⟩
      rcases List.mem_cons.1 hu with rfl | hu
      · exact Nat.le_of_lt hlt
      · exact (Nat.le_of_lt hlt).trans (hfirst u hu)
    · rename_i hge
      refine List.pairwise_cons.2 ⟨fun u hu => ?_, ih hrest⟩
      rcases mem_insert.1 hu with rfl | hu
      · exact Nat.not_lt.1 hge
      · exact hfirst u hu

end Task

namespace World

variable {α : Type} {w : World} {t : Task} {others : List Task}

/-! ### Rounds -/

theorem call_of_faults_eq_nil (h : w.faults = []) (call : Call) :
    w.call call =
      (.answered (call.answer w.backend).1, { w with backend := (call.answer w.backend).2 }) := by
  unfold World.call
  simp only [h, Fault.apply]

/-- Without faults, a program comes to its end as if nothing disturbed it. -/
theorem exists_advance (h : w.faults = []) (p : Program α) :
    ∃ log, w.advance p = (.ended (p.undisturbed w.clock w.backend).1,
      { w with backend := (p.undisturbed w.clock w.backend).2, log }) := by
  induction p generalizing w with
  | done a => exact ⟨w.log, rfl⟩
  | clock next ih => exact ih w.clock h
  | call call limit next ih =>
    unfold advance loggedCall
    rw [call_of_faults_eq_nil h]
    exact ih ⟨.answered (call.answer w.backend).1, 0⟩ h

/-- Without faults, the first task makes a round and waits for the next one. -/
theorem exists_resume (others : List Task) (hfaults : w.faults = []) {r next : Routine}
    {pause : Nat} {b : Backend}
    (hround : r.round.undisturbed w.clock w.backend = (some (next, pause), b))
    (ht : t.resumption = .round r) :
    ∃ log, (w.wake t others).resume t.resumption =
      { w with
        now := max w.now t.wakesAt
        backend := b
        tasks := Task.insert ⟨max w.now t.wakesAt + pause, .round next⟩ others
        log } := by
  obtain ⟨log, hadvance⟩ := exists_advance (w := w.wake t others) hfaults r.round
  have hend : r.round.undisturbed (w.wake t others).clock (w.wake t others).backend =
      (some (next, pause), b) := hround
  rw [hend] at hadvance
  refine ⟨log, ?_⟩
  simp only [ht, resume, Resumption.program, hadvance]
  rfl

/-! ### Passing time -/

/-- Tasks stand in the order in which they wake up, and none of them is late. -/
structure Orderly (w : World) : Prop where
  faults : w.faults = []
  sorted : w.tasks.Pairwise (·.wakesAt ≤ ·.wakesAt)
  ahead : ∀ t ∈ w.tasks, w.now ≤ t.wakesAt

/-- A bound on the rounds that tasks make up to a moment, if each of them takes a while. -/
def slack (moment : Nat) (w : World) : Nat :=
  (w.tasks.map fun t => moment + 1 - t.wakesAt).sum

theorem Orderly.slack_le (h : w.Orderly) (moment : Nat) :
    w.slack moment ≤ w.fuelUntil moment := by
  have hbound : ∀ n ∈ w.tasks.map fun t => moment + 1 - t.wakesAt, n ≤ moment + 2 - w.now := by
    intro n hn
    obtain ⟨t, ht, rfl⟩ := List.mem_map.1 hn
    have hahead := h.ahead t ht
    omega
  have hsum := List.sum_le_card_nsmul _ _ hbound
  rw [List.length_map, nsmul_eq_mul, Nat.cast_id, Nat.mul_comm] at hsum
  exact hsum

/-- A world after the round of its first task, which goes on with `next` after a pause. -/
structure Round (w : World) (t : Task) (others : List Task) (next : Routine) (pause : Nat)
    (b : Backend) (w' : World) : Prop where
  now : w'.now = t.wakesAt
  clock : w'.clock = w.clock
  backend : w'.backend = b
  tasks : w'.tasks = Task.insert ⟨t.wakesAt + pause, .round next⟩ others
  orderly : w'.Orderly
  slack_lt : ∀ moment, t.wakesAt ≤ moment → w'.slack moment < w.slack moment

theorem Orderly.round (h : w.Orderly) (htasks : w.tasks = t :: others) {r next : Routine}
    {pause : Nat} {b : Backend}
    (hround : r.round.undisturbed w.clock w.backend = (some (next, pause), b))
    (ht : t.resumption = .round r) (hpause : 0 < pause) :
    Round w t others next pause b ((w.wake t others).resume t.resumption) := by
  obtain ⟨log, hresume⟩ := exists_resume others h.faults hround ht
  have hsorted := h.sorted
  rw [htasks] at hsorted
  obtain ⟨hfirst, hothers⟩ := List.pairwise_cons.1 hsorted
  have hnow : max w.now t.wakesAt = t.wakesAt :=
    Nat.max_eq_right (h.ahead t (htasks ▸ .head others))
  rw [hresume, hnow]
  refine ⟨rfl, rfl, rfl, rfl, ⟨h.faults, Task.pairwise_insert hothers, fun u hu => ?_⟩, ?_⟩
  · rcases Task.mem_insert.1 hu with rfl | hu
    · exact Nat.le_add_right _ _
    · exact hfirst u hu
  · intro moment hdue
    have hperm := (Task.perm_insert ⟨t.wakesAt + pause, .round next⟩ others).map
      fun t => moment + 1 - t.wakesAt
    unfold slack
    rw [hperm.sum_eq, htasks, List.map_cons, List.map_cons, List.sum_cons, List.sum_cons]
    show moment + 1 - (t.wakesAt + pause) + _ < _
    omega

/-- What every step keeps holds when time has passed up to a moment, and then no task is left that
wakes up until it. -/
theorem runTasks_spec (inv : World → Prop) {moment fuel : Nat} (orderly : ∀ w, inv w → w.Orderly)
    (step : ∀ w t others, inv w → w.tasks = t :: others → t.wakesAt ≤ moment →
      inv ((w.wake t others).resume t.resumption) ∧
        ((w.wake t others).resume t.resumption).slack moment < w.slack moment)
    (hinv : inv w) (hfuel : w.slack moment ≤ fuel) :
    inv (w.runTasks (· ≤ moment) fuel) ∧
      ∀ t ∈ (w.runTasks (· ≤ moment) fuel).tasks, moment < t.wakesAt := by
  induction fuel generalizing w with
  | zero =>
    refine ⟨hinv, fun t ht => ?_⟩
    -- Nothing is left to be done, so no summand is left either.
    have hle : moment + 1 - t.wakesAt ≤ w.slack moment :=
      List.single_le_sum (fun _ _ => Nat.zero_le _) _ (List.mem_map_of_mem ht)
    omega
  | succ fuel ih =>
    unfold runTasks
    split
    · rename_i hnil
      refine ⟨hinv, fun t ht => ?_⟩
      rw [hnil] at ht
      exact absurd ht List.not_mem_nil
    · rename_i t others htasks
      split
      · rename_i hdue
        obtain ⟨hnext, hless⟩ := step w t others hinv htasks (of_decide_eq_true hdue)
        exact ih hnext (by omega)
      · rename_i hdue
        have hlt : moment < t.wakesAt := Nat.not_le.1 fun hle => hdue (decide_eq_true hle)
        have hsorted := (orderly w hinv).sorted
        rw [htasks] at hsorted
        refine ⟨hinv, fun u hu => ?_⟩
        rw [htasks] at hu
        rcases List.mem_cons.1 hu with rfl | hu
        · exact hlt
        · exact hlt.trans_le ((List.pairwise_cons.1 hsorted).1 u hu)

/-! ### Starting tasks -/

/-- The first rounds of routines one after another, and what they go on with. -/
inductive FirstRounds (now : Timestamp) :
    List Routine → Backend → List (Routine × Nat) → Backend → Prop
  | nil (b : Backend) : FirstRounds now [] b [] b
  | cons {r next : Routine} {pause : Nat} {rest : List Routine} {b b' b'' : Backend}
    {nexts : List (Routine × Nat)}
    (round : r.round.undisturbed now b = (some (next, pause), b')) (pauses : 0 < pause)
    (others : FirstRounds now rest b' nexts b'') :
    FirstRounds now (r :: rest) b ((next, pause) :: nexts) b''

/-- The task that makes its first round now. -/
def firstTask (now : Nat) (r : Routine) : Task := ⟨now, .round r⟩

/-- The task that goes on after a pause. -/
def nextTask (now : Nat) (p : Routine × Nat) : Task := ⟨now + p.2, .round p.1⟩

/-- A world in which routines were started. -/
structure Started (w : World) (nexts : List (Routine × Nat)) (later : List Task) (b : Backend)
    (w' : World) : Prop where
  now : w'.now = w.now
  clock : w'.clock = w.clock
  backend : w'.backend = b
  mem_tasks : ∀ u, u ∈ w'.tasks ↔ u ∈ later ∨ ∃ p ∈ nexts, u = nextTask w.now p
  orderly : w'.Orderly

theorem runTasks_firstRounds {routines : List Routine} {later : List Task}
    {nexts : List (Routine × Nat)} {b : Backend} {fuel : Nat} (h : w.Orderly)
    (htasks : w.tasks = routines.map (firstTask w.now) ++ later)
    (hlater : ∀ u ∈ later, w.now < u.wakesAt)
    (hrounds : FirstRounds w.clock routines w.backend nexts b) (hfuel : routines.length ≤ fuel) :
    Started w nexts later b (w.runTasks (· ≤ w.now) fuel) := by
  generalize hb : w.backend = b₀ at hrounds
  generalize hclock : w.clock = clock at hrounds
  induction hrounds generalizing w later fuel with
  | nil b =>
    have hstop : w.runTasks (· ≤ w.now) fuel = w := by
      cases fuel with
      | zero => rfl
      | succ fuel =>
        unfold runTasks
        split
        · rfl
        · rename_i t others hcons
          have htasks : w.tasks = later := htasks
          have hlt := hlater t (htasks ▸ hcons ▸ .head others)
          exact if_neg fun hle => Nat.not_le.2 hlt (of_decide_eq_true hle)
    rw [hstop]
    refine ⟨rfl, rfl, hb, fun u => ?_, h⟩
    rw [htasks]
    simp
  | @cons r next pause rest b b' b'' nexts round pauses others ih =>
    cases fuel with
    | zero => exact absurd hfuel (Nat.not_succ_le_zero _)
    | succ fuel =>
      subst hb hclock
      have hround := h.round htasks round rfl pauses
      unfold runTasks
      split
      · rename_i hnil
        exact nomatch hnil.symm.trans htasks
      rename_i t others htasks'
      obtain ⟨rfl, rfl⟩ := List.cons.inj (htasks'.symm.trans htasks)
      have hdue : decide ((firstTask w.now r).wakesAt ≤ w.now) = true :=
        decide_eq_true (Nat.le_refl _)
      rw [if_pos hdue]
      generalize (w.wake (firstTask w.now r) _).resume _ = w' at hround
      -- The other routines are still at their first rounds, and this one has joined the rest.
      have hnow : w'.now = w.now := hround.now
      have htasks' : w'.tasks =
          rest.map (firstTask w'.now) ++ (nextTask w.now (next, pause)).insert later := by
        rw [hround.tasks, hnow]
        refine Task.insert_append fun u hu => ?_
        obtain ⟨r', -, rfl⟩ := List.mem_map.1 hu
        exact Nat.le_add_right _ _
      have hlater' : ∀ u ∈ (nextTask w.now (next, pause)).insert later, w'.now < u.wakesAt := by
        intro u hu
        rw [hnow]
        rcases Task.mem_insert.1 hu with rfl | hu
        · exact Nat.lt_add_of_pos_right pauses
        · exact hlater u hu
      have hrest := ih hround.orderly htasks' hlater' (Nat.le_of_succ_le_succ hfuel)
        hround.backend hround.clock
      rw [hnow] at hrest
      refine ⟨hrest.now.trans hnow, hrest.clock.trans hround.clock, hrest.backend, fun u => ?_,
        hrest.orderly⟩
      rw [hrest.mem_tasks, Task.mem_insert, hnow]
      simp only [List.mem_cons, exists_eq_or_imp]
      tauto

theorem tasks_foldl_wait (routines : List Routine) (h : ∀ t ∈ w.tasks, t.wakesAt ≤ w.now) :
    routines.foldl (fun w r => w.wait 0 (.round r)) w =
      { w with tasks := w.tasks ++ routines.map (firstTask w.now) } := by
  induction routines generalizing w with
  | nil => rw [List.map_nil, List.append_nil]; rfl
  | cons r rest ih =>
    have hwait : w.wait 0 (.round r) = { w with tasks := w.tasks ++ [firstTask w.now r] } := by
      have hinsert : (firstTask w.now r).insert (w.tasks ++ []) =
          w.tasks ++ (firstTask w.now r).insert [] := Task.insert_append h
      rw [List.append_nil] at hinsert
      show ({ w with tasks := (firstTask w.now r).insert w.tasks } : World) = _
      rw [hinsert]
      rfl
    rw [List.foldl_cons, hwait, ih]
    · simp only [List.map_cons, List.append_assoc, List.singleton_append]
    · intro t ht
      rcases List.mem_append.1 ht with ht | ht
      · exact h t ht
      · rw [List.mem_singleton.1 ht]
        exact Nat.le_refl _

/-- Routines that are started all make their first rounds, in the order in which they stand. -/
theorem started_start {routines : List Routine} {nexts : List (Routine × Nat)} {b : Backend}
    (hfaults : w.faults = []) (htasks : w.tasks = [])
    (hrounds : FirstRounds w.clock routines w.backend nexts b) :
    Started w nexts [] b (w.start routines) := by
  have hwaiting := tasks_foldl_wait (w := w) routines (by rw [htasks]; simp)
  rw [htasks, List.nil_append] at hwaiting
  have horderly : ({ w with tasks := routines.map (firstTask w.now) } : World).Orderly := by
    refine ⟨hfaults, ?_, fun t ht => ?_⟩
    · exact List.pairwise_map.2 (List.pairwise_of_forall fun _ _ => Nat.le_refl _)
    · obtain ⟨r, -, rfl⟩ := List.mem_map.1 ht
      exact Nat.le_refl _
  have hfuel : routines.length ≤
      ({ w with tasks := routines.map (firstTask w.now) } : World).fuelUntil w.now := by
    show _ ≤ (w.now + 2 - w.now) * (routines.map (firstTask w.now)).length
    rw [List.length_map]
    exact Nat.le_mul_of_pos_left _ (by omega)
  have hrun := runTasks_firstRounds horderly (List.append_nil _).symm
    (fun u hu => absurd hu List.not_mem_nil) hrounds hfuel
  have hmax : max (runTasks (· ≤ w.now) _ _ : World).now w.now = w.now :=
    Nat.max_eq_right hrun.now.le
  rw [start, hwaiting]
  refine ⟨hmax, hrun.clock, hrun.backend, hrun.mem_tasks, hrun.orderly.faults,
    hrun.orderly.sorted, fun t ht => ?_⟩
  exact hmax.le.trans (hrun.now.ge.trans (hrun.orderly.ahead t ht))

end World

end Workplane.Simulation
