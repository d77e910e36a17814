import Workplane.Proofs.Background.BackupFirst
import Workplane.Proofs.Background.Timeline

/-!
# Backups on schedule

What a backup loop does in time falls into attempts (`Background.Attempt`).  The first one begins at
once, each other one a pause after the end of the one before, and the pause depends on whether that
one has saved a snapshot (`Background.OnSchedule`).  An attempt is over when its time is
(`Background.Attempt.Valid`).
-/

namespace Workplane

/-! ### How long a program lasts -/

/-- The program lasts for so many milliseconds at most, if no call takes longer than its limit. -/
def Program.Lasts {α : Type} (ms : Nat) : Program α → Prop
  | done _ => True
  | clock next => ∀ now, (next now).Lasts ms
  | call _ limit next =>
    limit ≤ ms ∧ ∀ reply, reply.took ≤ limit → (next reply).Lasts (ms - reply.took)

theorem Program.lasts_within {α : Type} (p : Program α) (budget : Nat) :
    (p.within budget).Lasts budget := by
  induction p generalizing budget with
  | done a => trivial
  | clock next ih => exact fun now => ih now budget
  | call x limit next ih =>
    refine ⟨Nat.min_le_right _ _, fun reply _ => ?_⟩
    dsimp only
    split
    · split
      · exact ih reply _
      · trivial
    · exact ih reply _

theorem Program.Lasts.bind {α β : Type} {p : Program α} {f : α → Program β} {ms : Nat}
    (h : p.Lasts ms) (hf : ∀ a ms, (f a).Lasts ms) : (p >>= f).Lasts ms := by
  induction p generalizing ms with
  | done a => exact hf a ms
  | clock next ih => exact fun now => ih now (h now)
  | call x limit next ih => exact ⟨h.1, fun reply hreply => ih reply (h.2 reply hreply)⟩

namespace Background

variable {α : Type} [Kind α]

/-! ### Attempts -/

/-- An attempt to back up that is over. -/
structure Attempt where
  start : Nat
  stop : Nat
  /-- Its moves, each with the moment at which it was made. -/
  moves : List (Nat × Move)
  ok : Bool

/-- The acts of an attempt that goes on. -/
def begunActs (start : Nat) (moves : List (Nat × Move)) : List (Nat × Act) :=
  (start, .began) :: moves.map fun m => (m.1, .moved m.2)

/-- The acts of an attempt. -/
def Attempt.acts (a : Attempt) : List (Nat × Act) :=
  begunActs a.start a.moves ++ [(a.stop, .rested)]

/-- A call lists the repository or puts its snapshot. -/
def IsOfBackup (r : Repository α) (x : Call) : Prop :=
  x = .list r.root ∨ ∃ data, x = .putBlob r.backupKey data

/-- Moves make only calls of a backup, from one moment to another. -/
def MovesOfBackup (r : Repository α) (start stop : Nat) (moves : List (Nat × Move)) : Prop :=
  ∀ m ∈ moves, start ≤ m.1 ∧ m.1 ≤ stop ∧ ∀ x, m.2.request = some x → IsOfBackup r x

/-- An attempt is over in time; it succeeds if it has saved a snapshot of what it has listed, and
nothing has changed if it fails. -/
structure Attempt.Valid (r : Repository α) (s : BackupSchedule) (a : Attempt) : Prop where
  inTime : a.stop ≤ a.start + s.attempt
  moves : MovesOfBackup r a.start a.stop a.moves
  success : a.ok = true ↔ r.HasSaved (a.moves.map Prod.snd)
  failure : a.ok = false → ∀ m ∈ a.moves, ∀ b, m.2.after b = b

/-- The end of the last attempt. -/
def lastStop (as : List Attempt) : Nat :=
  (as.getLast?.map Attempt.stop).getD 0

/-- The pause after an attempt. -/
def Attempt.pause (s : BackupSchedule) (a : Attempt) : Nat :=
  if a.ok then s.afterSuccess else s.afterFailure

/-- When the next attempt is due: at once, or a pause after the end of the last one. -/
def due (s : BackupSchedule) (as : List Attempt) : Nat :=
  match as.getLast? with
  | none => 0
  | some a => a.stop + a.pause s

/-- The tasks are cancelled before a moment. -/
def CancelledBefore (E : Conditions) (moment : Nat) : Prop :=
  ∃ c, E.cancel = some c ∧ c.moment < moment

/-- Attempts that follow one another on schedule; none of them follows on a pause during which the
tasks were cancelled. -/
inductive OnSchedule (E : Conditions) (r : Repository α) (s : BackupSchedule) :
    List Attempt → Prop
  | nil : OnSchedule E r s []
  | snoc {as : List Attempt} (before : OnSchedule E r s as) (a : Attempt) (valid : a.Valid r s)
    (start : a.start = due s as) (going : as ≠ [] → ¬CancelledBefore E (due s as)) :
    OnSchedule E r s (as ++ [a])

/-- What a loop has done since its attempts that are over, at a moment. -/
inductive Since (E : Conditions) (r : Repository α) (s : BackupSchedule) (as : List Attempt)
    (now : Nat) : List (Nat × Act) → Prop
  /-- It pauses, and the next attempt is not late; nor is its end if it has been cancelled. -/
  | pause (ahead : now ≤ due s as)
    (cut : ∀ c, as ≠ [] → E.cancel = some c → c.moment < due s as →
      now ≤ max (lastStop as) c.moment) : Since E r s as now []
  /-- It makes an attempt that began on schedule, and goes on with it before the time is over. -/
  | attempt (next : Nat) (moves : List (Nat × Move)) (ahead : now ≤ next)
    (inTime : next ≤ due s as + s.attempt) (valid : MovesOfBackup r (due s as) next moves)
    (going : as ≠ [] → ¬CancelledBefore E (due s as)) :
    Since E r s as now (begunActs (due s as) moves)
  /-- It has returned, as it was cancelled until the end of its pause. -/
  | returned (c : Cancellation) (cancelled : E.cancel = some c) (paused : as ≠ [])
    (early : c.moment ≤ due s as) :
    Since E r s as now [(max (lastStop as) c.moment, .returned)]

/-- What a loop has done up to a moment is attempts on schedule and what it has done since. -/
def KeepsSchedule (E : Conditions) (r : Repository α) (s : BackupSchedule) (now : Nat)
    (acts : List (Nat × Act)) : Prop :=
  ∃ as since, acts = as.flatMap Attempt.acts ++ since ∧ OnSchedule E r s as ∧
    Since E r s as now since

/-! ### One attempt -/

section Round

variable (r : Repository α) (s : BackupSchedule)

/-- What is true of the moves of an attempt, given whether it succeeded: a success has saved a
snapshot of what was listed, and a failure has changed nothing. -/
def Tells (ok : Bool) (moves : List Move) : Prop :=
  (ok = true ↔ r.HasSaved moves) ∧ (ok = false → ∀ m ∈ moves, ∀ b, m.after b = b)

theorem lasts_round : (backupLoop r s).round.Lasts s.attempt := by
  refine Program.Lasts.bind (Program.Lasts.bind (Program.lasts_within _ _) fun result ms => ?_)
    fun ok ms => trivial
  split
  · trivial
  · trivial

/-- The calls of an attempt: a listing, and a snapshot of it if it was answered. -/
theorem backupOnce_eq : backupOnce r s =
    .call (.list r.root) (min r.limit s.attempt) fun listing =>
      match listing.outcome with
      | .answered entries => .clock fun takenAt =>
        .call (.putBlob r.backupKey (Snapshot.encode (α := α) ⟨r.scope, Kind.plural α, takenAt,
            entries.filterMap fun e => Kind.decode? e.value⟩))
          (min r.limit (s.attempt - listing.took)) fun saving =>
            match saving.outcome with
            | .answered _ => .done true
            | _ => .done false
      | _ => .done false := by
  refine congrArg (Program.call (.list r.root) (min r.limit s.attempt)) (funext fun listing => ?_)
  obtain ⟨outcome, took⟩ := listing
  cases outcome with
  | answered entries =>
    refine congrArg Program.clock (funext fun takenAt => ?_)
    refine congrArg (Program.call (.putBlob r.backupKey _) _) (funext fun saving => ?_)
    obtain ⟨outcome, took'⟩ := saving
    cases outcome with
    | answered answer => rfl
    | failed causes => rfl
    | gaveUp =>
      dsimp only
      split <;> rfl
  | failed causes => rfl
  | gaveUp =>
    dsimp only
    split <;> rfl

/-- An attempt that has not put a snapshot and has changed nothing fails. -/
theorem tells_false {moves : List Move}
    (hput : ∀ key data took, .call (.putBlob key data) ⟨.answered (), took⟩ ∉ moves)
    (hafter : ∀ m ∈ moves, ∀ b, m.after b = b) : Tells r false moves := by
  refine ⟨⟨nofun, fun h => ?_⟩, fun _ => hafter⟩
  obtain ⟨data, took, -, hmem⟩ := h
  exact absurd hmem (hput _ _ _)

theorem holds_attempt :
    (backupOnce r s).Holds (.history (OnlyCalls (IsOfBackup r))) (Tells r) [] := by
  rw [backupOnce_eq]
  refine ⟨fun x hx => Or.inl (Option.some.inj hx).symm, ?_⟩
  rintro ⟨outcome, took⟩ _ rfl
  have hlost (outcome : Outcome (List Entry)) (h : ∀ b, (Move.call (.list r.root)
      ⟨outcome, took⟩).after b = b) : Tells r false [.call (.list r.root) ⟨outcome, took⟩] :=
    tells_false r (by simp) fun m hm => List.mem_singleton.1 hm ▸ h
  cases outcome with
  | failed causes => exact hlost _ fun _ => rfl
  | gaveUp => exact hlost _ fun _ => rfl
  | answered entries =>
    refine ⟨fun x hx => (nomatch hx), ?_⟩
    rintro takenAt _ rfl
    refine ⟨fun x hx => Or.inr ⟨_, (Option.some.inj hx).symm⟩, ?_⟩
    rintro ⟨outcome, took'⟩ _ rfl
    -- The calls before the last one have changed nothing, whatever it comes to.
    cases outcome with
    | answered answer =>
      refine ⟨⟨fun _ => ?_, fun _ => rfl⟩, nofun⟩
      exact ⟨_, took', ⟨entries, took, takenAt, by simp, rfl⟩, by simp⟩
    | failed causes =>
      refine tells_false r (by simp) fun m hm b => ?_
      simp only [List.nil_append, List.cons_append, List.mem_cons, List.not_mem_nil, or_false] at hm
      rcases hm with rfl | rfl | rfl <;> rfl
    | gaveUp =>
      refine tells_false r (by simp) fun m hm b => ?_
      simp only [List.nil_append, List.cons_append, List.mem_cons, List.not_mem_nil, or_false] at hm
      rcases hm with rfl | rfl | rfl <;> rfl

/-- A round is an attempt, and its success decides on the pause. -/
def EndsRound (next : Option (Routine × Nat)) (moves : List Move) : Prop :=
  ∃ ok : Bool, next = some (backupLoop r s, if ok then s.afterSuccess else s.afterFailure) ∧
    Tells r ok moves

theorem holds_round :
    (backupLoop r s).round.Holds (.history (OnlyCalls (IsOfBackup r))) (EndsRound r s) [] :=
  Program.holds_bind.2 ((holds_attempt r s).mono fun ok _ h => ⟨ok, rfl, h⟩)

end Round

/-! ### The place of a loop in the agenda -/

section Standing

variable (E : Conditions) (r : Repository α) (s : BackupSchedule) (task : Nat)

/-- Where a loop stands in an attempt that has made some moves and has to be over at a moment. -/
inductive InAttempt (moves : List Move) (moment deadline : Nat) : Stage → Prop
  | work (rest : Program (Option (Routine × Nat)))
    (holds : rest.Holds (.history (OnlyCalls (IsOfBackup r))) (EndsRound r s) moves)
    (lasts : rest.Lasts (deadline - moment)) : InAttempt moves moment deadline (.work rest)
  | call (x : Call) (limit : Nat) (fate : Fate)
    (next : Reply x.Answer → Program (Option (Routine × Nat))) (asked : IsOfBackup r x)
    (holds : ∀ reply, (next reply).Holds (.history (OnlyCalls (IsOfBackup r))) (EndsRound r s)
      (moves ++ [.call x reply]))
    (lasts : ∀ outcome, (next ⟨outcome, fate.took limit⟩).Lasts (deadline - moment)) :
    InAttempt moves moment deadline (.call x limit fate next)

/-- What a loop has done since its attempts that are over, and its place in the agenda. -/
inductive Standing (as : List Attempt) : List (Nat × Act) → List Slot → Prop
  | first (turns : Nat) (none : as = []) :
    Standing as [] [⟨0, task, turns, .first (backupLoop r s)⟩]
  | pause (turns : Nat) (some : as ≠ []) (going : ¬CancelledBefore E (due s as)) :
    Standing as [] [⟨due s as, task, turns, .pause (backupLoop r s)⟩]
  | cut (turns : Nat) (some : as ≠ []) (c : Cancellation) (cancelled : E.cancel = .some c)
    (early : c.moment < due s as) :
    Standing as [] [⟨max (lastStop as) c.moment, task, turns, .cut⟩]
  | attempt (moment turns : Nat) (moves : List (Nat × Move)) (stage : Stage)
    (going : as ≠ [] → ¬CancelledBefore E (due s as)) (begun : due s as ≤ moment)
    (inTime : moment ≤ due s as + s.attempt) (valid : MovesOfBackup r (due s as) moment moves)
    (stands : InAttempt r s (moves.map Prod.snd) moment (due s as + s.attempt) stage) :
    Standing as (begunActs (due s as) moves) [⟨moment, task, turns, stage⟩]
  | returned (c : Cancellation) (cancelled : E.cancel = .some c) (paused : as ≠ [])
    (early : c.moment ≤ due s as) :
    Standing as [(max (lastStop as) c.moment, .returned)] []

end Standing

section Turns

variable {E : Conditions} {r : Repository α} {s : BackupSchedule} {task : Nat}
  {as : List Attempt} {acts : List (Nat × Act)} {slot : Slot}

/-- The place of a loop after a turn: its attempts, what it has done since, and where it stands. -/
def AfterTurn (E : Conditions) (r : Repository α) (s : BackupSchedule) (task : Nat)
    (past : List (Nat × Act)) (slots : List Slot) : Prop :=
  ∃ as acts, OnSchedule E r s as ∧ past = as.flatMap Attempt.acts ++ acts ∧
    Standing E r s task as acts slots

theorem MovesOfBackup.concat {start stop : Nat} {moves : List (Nat × Move)}
    (h : MovesOfBackup r start stop moves) {moment : Nat} (hstop : stop ≤ moment)
    (hstart : start ≤ moment) {m : Move} (hm : ∀ x, m.request = some x → IsOfBackup r x) :
    MovesOfBackup r start moment (moves ++ [(moment, m)]) := by
  intro m' hm'
  rcases List.mem_append.1 hm' with hm' | hm'
  · obtain ⟨hge, hle, hcalls⟩ := h m' hm'
    exact ⟨hge, hle.trans hstop, hcalls⟩
  · rw [List.mem_singleton.1 hm']
    exact ⟨hstart, Nat.le_refl _, hm⟩

theorem lastStop_concat (as : List Attempt) (a : Attempt) : lastStop (as ++ [a]) = a.stop := by
  unfold lastStop
  rw [List.getLast?_concat]
  rfl

theorem due_concat (s : BackupSchedule) (as : List Attempt) (a : Attempt) :
    due s (as ++ [a]) = a.stop + a.pause s := by
  unfold due
  rw [List.getLast?_concat]

theorem lastStop_le_due (s : BackupSchedule) (as : List Attempt) : lastStop as ≤ due s as := by
  unfold lastStop due
  cases as.getLast? with
  | none => exact Nat.le_refl _
  | some a => exact Nat.le_add_right _ _

theorem begunActs_concat (start : Nat) (moves : List (Nat × Move)) (moment : Nat) (m : Move) :
    begunActs start (moves ++ [(moment, m)]) = begunActs start moves ++ [(moment, .moved m)] := by
  unfold begunActs
  rw [List.map_append]
  rfl

/-- The first moment of an attempt. -/
theorem Standing.begin (turns : Nat) (going : as ≠ [] → ¬CancelledBefore E (due s as)) :
    Standing E r s task as (begunActs (due s as) [])
      [⟨due s as, task, turns, .work (backupLoop r s).round⟩] := by
  refine .attempt _ turns [] _ going (Nat.le_refl _) (Nat.le_add_right _ _) nofun
    (.work _ (holds_round r s) ?_)
  rw [Nat.add_sub_cancel_left]
  exact lasts_round r s

/-- A pause, which is cut short if the tasks are cancelled before its end. -/
theorem Standing.rest (a : Attempt) (turns : Nat) (stage : Stage) :
    Standing E r s task (as ++ [a]) []
      ((E.rest ⟨a.stop, task, turns, stage⟩ (backupLoop r s) (a.pause s)).place
        ⟨a.stop, task, turns, stage⟩ []) := by
  have hne : as ++ [a] ≠ [] := List.concat_ne_nil a as
  have hpause (going : ¬CancelledBefore E (due s (as ++ [a]))) :
      Standing E r s task (as ++ [a]) []
        [⟨a.stop + a.pause s, task, turns + 1, .pause (backupLoop r s)⟩] := by
    rw [← due_concat]
    exact .pause _ hne going
  unfold Conditions.rest
  split
  · rename_i c hc
    split
    -- The cancellation comes before the end of the pause, which it cuts short.
    · rename_i hearly
      rw [← due_concat] at hearly
      have hmoment : a.stop + (c.moment - a.stop) = max (lastStop (as ++ [a])) c.moment := by
        rw [lastStop_concat]
        omega
      show Standing E r s task (as ++ [a]) []
        [⟨a.stop + (c.moment - a.stop), task, turns + 1, .cut⟩]
      rw [hmoment]
      exact .cut _ hne c hc hearly
    · rename_i hlate
      refine hpause ?_
      rintro ⟨c', hc', hearly⟩
      obtain rfl := Option.some.inj (hc.symm.trans hc')
      rw [due_concat] at hearly
      exact hlate hearly
  · rename_i hnone
    refine hpause ?_
    rintro ⟨c', hc', -⟩
    exact nomatch hnone.symm.trans hc'

/-- The turn of a loop leads from one place to another one. -/
theorem Standing.turn (h : Standing E r s task as acts [slot]) (has : OnSchedule E r s as)
    (b : Backend) :
    AfterTurn E r s task
      (as.flatMap Attempt.acts ++ acts ++
        ((E.turn slot b).act.map fun act => (slot.moment, act)).toList)
      ((E.turn slot b).next.place slot []) := by
  cases h with
  | first turns none =>
    subst none
    exact ⟨[], _, has, rfl, .begin _ fun h => absurd rfl h⟩
  | pause turns some going =>
    rw [List.append_nil]
    unfold Conditions.turn
    dsimp only
    split
    -- The pause ends at the moment of the cancellation, so the loop returns.
    · rename_i hnotices
      obtain ⟨c, hc, hmoment⟩ := Conditions.exists_of_notices hnotices
      have hdue : max (lastStop as) c.moment = due s as := by
        have hle := lastStop_le_due s as
        rw [hmoment]
        exact Nat.max_eq_right hle
      refine ⟨as, _, has, ?_, .returned c hc some hmoment.le⟩
      rw [hdue]
      rfl
    · exact ⟨as, _, has, rfl, .begin _ fun _ => going⟩
  | cut turns some c cancelled early =>
    rw [List.append_nil]
    exact ⟨as, _, has, rfl, .returned c cancelled some early.le⟩
  | attempt moment turns moves stage going begun inTime valid stands =>
    cases stands with
    | work rest holds lasts =>
      cases rest with
      | done result =>
        obtain ⟨ok, rfl, hsuccess, hfailure⟩ := holds
        -- The attempt is over: it joins those before it, and its pause begins.
        let a : Attempt := ⟨due s as, moment, moves, ok⟩
        have hvalid : a.Valid r s :=
          ⟨inTime, valid, hsuccess, fun hok m hm => hfailure hok m.2 (List.mem_map_of_mem hm)⟩
        refine ⟨as ++ [a], [], has.snoc a hvalid rfl going, ?_, Standing.rest a turns _⟩
        rw [List.flatMap_append, List.flatMap_singleton, List.append_nil, List.append_assoc]
        rfl
      | clock next =>
        have hmoved := valid.concat (Nat.le_refl _) begun (m := .clock (E.clock moment)) nofun
        refine ⟨as, _, has, ?_, .attempt moment _ _ _ going begun inTime hmoved
          (.work _ ?_ (lasts _))⟩
        · rw [begunActs_concat, ← List.append_assoc]
          rfl
        · rw [List.map_append]
          exact holds.2 _ _ rfl
      | call x limit next =>
        obtain ⟨hask, hnext⟩ := holds
        obtain ⟨hlimit, hlasts⟩ := lasts
        refine ⟨as, _, has, List.append_nil _, ?_⟩
        -- The call takes no more than its limit, so what is left still ends in time.
        have htook := (E.fate task turns moment x).took_le limit
        have hstands (moment' : Nat) (hmoment : moment' =
            moment + (E.fate task turns moment x).took limit) : Standing E r s task as
              (begunActs (due s as) moves) [⟨moment', task, turns + 1,
                .call x limit (E.fate task turns moment x) next⟩] := by
          refine .attempt moment' _ moves _ going (by omega) (by omega) ?_ (.call x limit _ next
            (hask x rfl) (fun reply => hnext reply _ rfl) fun outcome => ?_)
          · exact fun m hm => ⟨(valid m hm).1, (valid m hm).2.1.trans (by omega), (valid m hm).2.2⟩
          · have hlast := hlasts ⟨outcome, (E.fate task turns moment x).took limit⟩ htook
            rwa [Nat.sub_sub, ← hmoment] at hlast
        show Standing E r s task as _ ((E.ask _ x limit next).place _ [])
        unfold Conditions.ask
        dsimp only
        split
        · rename_i hzero
          exact hstands moment (by omega)
        · exact hstands _ rfl
    | call x limit fate next asked holds lasts =>
      have hmoved := valid.concat (Nat.le_refl _) begun (m := .call x (fate.reply x limit b))
        fun x' hx' => Option.some.inj hx' ▸ asked
      refine ⟨as, _, has, ?_, .attempt moment _ _ _ going begun inTime hmoved
        (.work _ ?_ (lasts _))⟩
      · rw [begunActs_concat, ← List.append_assoc]
        rfl
      · rw [List.map_append]
        exact holds _

/-- A loop has one place in the agenda. -/
theorem Standing.eq_nil {others : List Slot} (h : Standing E r s task as acts (slot :: others)) :
    others = [] := by
  cases h <;> rfl

/-- What a loop has done since its last attempt, if nobody in the agenda is late. -/
theorem Standing.since {slots : List Slot} (h : Standing E r s task as acts slots) {now : Nat}
    (ahead : ∀ t ∈ slots, now ≤ t.moment) : Since E r s as now acts := by
  cases h with
  | first turns none =>
    subst none
    exact .pause (ahead _ (.head [])) fun c h => absurd rfl h
  | pause turns some going =>
    exact .pause (ahead _ (.head [])) fun c _ hc hearly => absurd ⟨c, hc, hearly⟩ going
  | cut turns some c cancelled early =>
    have hnow := ahead _ (.head [])
    have hdue := lastStop_le_due s as
    refine .pause (hnow.trans (Nat.max_le.2 ⟨hdue, early.le⟩)) fun c' _ hc' _ => ?_
    obtain rfl := Option.some.inj (cancelled.symm.trans hc')
    exact hnow
  | attempt moment turns moves stage going begun inTime valid stands =>
    exact .attempt moment moves (ahead _ (.head [])) inTime valid going
  | returned c cancelled paused early => exact .returned c cancelled paused early

/-- A step of a run leads a loop from one place to another one. -/
theorem AfterTurn.step {t : Timeline} (horder : t.Orderly)
    (h : AfterTurn E r s task (t.own task) (onlyTasks (· = task) t.agenda)) :
    AfterTurn E r s task ((t.step E).own task) (onlyTasks (· = task) (t.step E).agenda) := by
  cases hagenda : t.agenda with
  | nil =>
    rw [Timeline.step_eq_self hagenda]
    exact h
  | cons slot others =>
    obtain ⟨as, acts, has, hown, hstands⟩ := h
    rw [hagenda, onlyTasks_cons] at hstands
    rw [Timeline.own_step hagenda, Timeline.step_eq hagenda]
    dsimp only
    rcases Decidable.em (slot.task = task) with htask | htask
    · rw [if_pos (decide_eq_true htask)] at hstands
      have hothers := hstands.eq_nil
      rw [hothers] at hstands
      rw [onlyTasks_place (decide_eq_true htask) (List.pairwise_cons.1 (hagenda ▸ horder.sorted)).2,
        hothers, if_pos htask, hown]
      exact hstands.turn has t.backend
    · rw [if_neg (decide_eq_true_iff.not.2 htask)] at hstands
      rw [onlyTasks_place_of_not (decide_eq_false htask), if_neg htask, List.append_nil]
      exact ⟨as, acts, has, hown, hstands⟩

/-- A loop that is started keeps its schedule. -/
theorem keepsSchedule_run {b : Backend} {routines : List Routine}
    (hstart : onlyTasks (· = task) (Timeline.start b routines).agenda =
      [⟨0, task, 0, .first (backupLoop r s)⟩]) (E : Conditions) (n : Nat) :
    KeepsSchedule E r s ((Timeline.start b routines).run E n).now
      (((Timeline.start b routines).run E n).own task) := by
  have horder := Timeline.orderly_start b routines
  have hplace : AfterTurn E r s task (((Timeline.start b routines).run E n).own task)
      (onlyTasks (· = task) ((Timeline.start b routines).run E n).agenda) := by
    induction n with
    | zero => exact ⟨[], [], .nil, rfl, hstart ▸ .first 0 rfl⟩
    | succ n ih =>
      rw [Timeline.run_succ]
      exact ih.step (horder.run E n)
  obtain ⟨as, acts, has, hown, hstands⟩ := hplace
  exact ⟨as, acts, hown, has, hstands.since fun t ht =>
    (horder.run E n).ahead t (List.mem_of_mem_filter ht)⟩

end Turns

end Background

end Workplane
