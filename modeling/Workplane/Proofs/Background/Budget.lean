import Workplane.Proofs.Background.Schedule

/-!
# The time of a backup attempt

A program that runs on a clock makes its calls one after another, each until it ends or its limit
does (`Program.Timed`).  A backup attempt is bounded by its schedule as a whole, and each of its
calls by the limit of the repository as well; whichever ends first gives a call up
(`Background.KeepsTime`).  So an attempt has the whole time of its schedule exactly if that is no
more than a single call may take (`Background.wholeTime_iff`).

Both the loop that backs up over and over and the one that backs up until it succeeds make such
attempts.
-/

namespace Workplane

/-! ### Programs on a clock -/

/-- A call is answered in time, or it is lost. -/
theorem Fate.reply_cases (f : Fate) (x : Call) (limit : Nat) (b : Backend) :
    (∃ after, f = .answered after ∧ after ≤ limit ∧
      f.reply x limit b = ⟨.answered (x.answer b).1, after⟩) ∨
    f.isInTime limit = false ∧ ∀ answer, (f.reply x limit b).outcome ≠ .answered answer := by
  cases f with
  | answered after =>
    by_cases h : after ≤ limit
    · refine Or.inl ⟨after, rfl, h, ?_⟩
      simp only [reply, outcome, took, if_pos h, Nat.min_eq_left h]
    · refine Or.inr ⟨decide_eq_false h, fun answer => ?_⟩
      simp only [reply, outcome, if_neg h]
      exact nofun
  | failed causes after =>
    refine Or.inr ⟨rfl, fun answer => ?_⟩
    simp only [reply, outcome]
    split
    · exact nofun
    · exact nofun
  | hangs => exact Or.inr ⟨rfl, nofun⟩

/-- A call of a program: when it was made, and what became of it. -/
structure Asked where
  call : Call
  limit : Nat
  start : Nat
  fate : Fate

namespace Asked

/-- When the call ended. -/
def stop (a : Asked) : Nat :=
  a.start + a.fate.took a.limit

/-- The call was given up when its limit ended. -/
def IsGivenUp (a : Asked) : Prop :=
  match a.fate with
  | .answered after | .failed _ after => a.limit < after
  | .hangs => True

/-- The call would have been answered until a moment. -/
def IsAnsweredBy (a : Asked) (moment : Nat) : Prop :=
  ∃ after, a.fate = .answered after ∧ a.start + after ≤ moment

theorem IsGivenUp.stop_eq {a : Asked} (h : a.IsGivenUp) : a.stop = a.start + a.limit := by
  obtain ⟨x, limit, start, fate⟩ := a
  cases fate with
  | answered after => exact congrArg (start + ·) (Nat.min_eq_right (Nat.le_of_lt h))
  | failed causes after => exact congrArg (start + ·) (Nat.min_eq_right (Nat.le_of_lt h))
  | hangs => rfl

/-- A call is answered before its limit ends exactly if its fate is in time. -/
theorem isAnsweredBy_limit (x : Call) (limit start : Nat) (fate : Fate) :
    IsAnsweredBy ⟨x, limit, start, fate⟩ (start + limit) ↔ fate.isInTime limit = true := by
  cases fate with
  | answered after => simp [IsAnsweredBy, Fate.isInTime]
  | failed causes after => simp [IsAnsweredBy, Fate.isInTime]
  | hangs => simp [IsAnsweredBy, Fate.isInTime]

end Asked

/-- A program that starts at a moment makes calls, each on whatever the backend holds when it ends,
and stops at a moment with a result. -/
inductive Program.Timed {α : Type} : Program α → Nat → List Asked → Nat → α → Prop
  | done (a : α) (now : Nat) : Timed (.done a) now [] now a
  | clock {next : Timestamp → Program α} {now stop : Nat} {asked : List Asked} {a : α}
    (shown : Timestamp) (rest : Timed (next shown) now asked stop a) :
    Timed (.clock next) now asked stop a
  | call {x : Call} {limit : Nat} {next : Reply x.Answer → Program α} {now stop : Nat}
    {asked : List Asked} {a : α} (fate : Fate) (b : Backend)
    (rest : Timed (next (fate.reply x limit b)) (now + fate.took limit) asked stop a) :
    Timed (.call x limit next) now (⟨x, limit, now, fate⟩ :: asked) stop a

namespace Background

variable {α : Type} [Kind α]

/-! ### The calls of an attempt -/

/-- How an attempt ends: its listing is lost, or its snapshot is, or neither. -/
inductive AttemptEnds (r : Repository α) (s : BackupSchedule) (start : Nat) :
    List Asked → Nat → Bool → Prop
  | unlisted (fate : Fate) (lost : fate.isInTime (min r.limit s.attempt) = false) :
    AttemptEnds r s start [⟨.list r.root, min r.limit s.attempt, start, fate⟩]
      (start + fate.took (min r.limit s.attempt)) false
  | unsaved (after : Nat) (listed : after ≤ min r.limit s.attempt) (data : ByteArray) (fate : Fate)
    (lost : fate.isInTime (min r.limit (s.attempt - after)) = false) :
    AttemptEnds r s start [⟨.list r.root, min r.limit s.attempt, start, .answered after⟩,
      ⟨.putBlob r.backupKey data, min r.limit (s.attempt - after), start + after, fate⟩]
      (start + after + fate.took (min r.limit (s.attempt - after))) false
  | saved (after : Nat) (listed : after ≤ min r.limit s.attempt) (data : ByteArray) (after' : Nat)
    (saved : after' ≤ min r.limit (s.attempt - after)) :
    AttemptEnds r s start [⟨.list r.root, min r.limit s.attempt, start, .answered after⟩,
      ⟨.putBlob r.backupKey data, min r.limit (s.attempt - after), start + after,
        .answered after'⟩]
      (start + after + after') true

/-- The last call of an attempt decides on its success. -/
theorem timed_saving {key : String} {data : ByteArray} {limit now stop : Nat} {asked : List Asked}
    {ok : Bool} {next : Reply Unit → Program Bool}
    (run : Program.Timed (.call (.putBlob key data) limit next) now asked stop ok)
    (hsaved : ∀ took, next ⟨.answered (), took⟩ = .done true)
    (hlost : ∀ reply, reply.outcome ≠ .answered () → next reply = .done false) :
    (∃ fate : Fate, fate.isInTime limit = false ∧ asked = [⟨.putBlob key data, limit, now, fate⟩] ∧
      stop = now + fate.took limit ∧ ok = false) ∨
    ∃ after, after ≤ limit ∧ asked = [⟨.putBlob key data, limit, now, .answered after⟩] ∧
      stop = now + after ∧ ok = true := by
  cases run with
  | call fate b rest =>
    rcases fate.reply_cases (.putBlob key data) limit b with
      ⟨after, rfl, hinTime, hreply⟩ | ⟨hinTime, hother⟩
    · have htook : Fate.took limit (.answered after) = after := Nat.min_eq_left hinTime
      rw [hreply, htook, hsaved] at rest
      cases rest with
      | done => exact Or.inr ⟨after, hinTime, rfl, rfl, rfl⟩
    · rw [hlost _ (hother ())] at rest
      cases rest with
      | done => exact Or.inl ⟨fate, hinTime, rfl, rfl, rfl⟩

theorem attemptEnds_of_timed {r : Repository α} {s : BackupSchedule} {start stop : Nat}
    {asked : List Asked} {ok : Bool} (run : (backupOnce r s).Timed start asked stop ok) :
    AttemptEnds r s start asked stop ok := by
  rw [backupOnce_eq] at run
  cases run with
  | call fate b rest =>
    -- Only a listing that is answered within its limit is followed by a write.
    rcases fate.reply_cases (.list r.root) (min r.limit s.attempt) b with
      ⟨after, rfl, hlisted, hreply⟩ | ⟨hlost, hother⟩
    · have htook : Fate.took (min r.limit s.attempt) (.answered after) = after :=
        Nat.min_eq_left hlisted
      rw [hreply, htook] at rest
      cases rest with
      | clock shown rest =>
        dsimp only at rest
        have ends := timed_saving rest (fun took => rfl) fun reply hreply => by
          split
          · rename_i answer houtcome
            exact absurd houtcome hreply
          · rfl
        rcases ends with ⟨fate, hlost, rfl, rfl, rfl⟩ | ⟨after', hsaved, rfl, rfl, rfl⟩
        · exact .unsaved after hlisted _ fate hlost
        · exact .saved after hlisted _ after' hsaved
    · dsimp only at rest
      split at rest
      · rename_i entries houtcome
        exact absurd houtcome (hother entries)
      · cases rest with
        | done => exact .unlisted fate hlost

/-- A listing that is answered too late ends an attempt. -/
theorem timed_late (r : Repository α) (s : BackupSchedule) (start : Nat) {after : Nat}
    (late : min r.limit s.attempt < after) : (backupOnce r s).Timed start
      [⟨.list r.root, min r.limit s.attempt, start, .answered after⟩]
      (start + min r.limit s.attempt) false := by
  rw [backupOnce_eq]
  have htook : Fate.took (min r.limit s.attempt) (.answered after) = min r.limit s.attempt :=
    Nat.min_eq_right late.le
  have hreply : (Fate.answered after).reply (.list r.root) (min r.limit s.attempt) .empty =
      ⟨.gaveUp, min r.limit s.attempt⟩ := by
    simp only [Fate.reply, Fate.outcome, if_neg (Nat.not_le.2 late), htook]
  refine .call (.answered after) .empty ?_
  rw [hreply, htook]
  exact .done false _

/-- So does one that hangs. -/
theorem timed_hanging (r : Repository α) (s : BackupSchedule) (start : Nat) :
    (backupOnce r s).Timed start [⟨.list r.root, min r.limit s.attempt, start, .hangs⟩]
      (start + min r.limit s.attempt) false := by
  rw [backupOnce_eq]
  exact .call .hangs .empty (.done false _)

/-! ### The time that an attempt has -/

/-- An attempt from a moment on is over in time, and each of its calls has its limit or the rest of
the time, whichever is less. -/
structure KeepsTime (limit time start : Nat) (asked : List Asked) (stop : Nat) (ok : Bool) :
    Prop where
  inTime : stop ≤ start + time
  begun : ∀ a ∈ asked, start ≤ a.start
  givenUp : ∀ a ∈ asked, a.IsGivenUp → a.stop = min (a.start + limit) (start + time) ∧
    stop = a.stop ∧ ok = false
  success : ok = true ↔ ∀ a ∈ asked, a.IsAnsweredBy (min (a.start + limit) (start + time))

/-- An attempt from a moment on has its whole time: no call is given up before it is over, calls
that are answered within it are enough for a success, and a call that hangs takes all of it. -/
structure HasWholeTime (time start : Nat) (asked : List Asked) (stop : Nat) (ok : Bool) : Prop where
  givenUp : ∀ a ∈ asked, a.IsGivenUp → start + time ≤ a.stop
  success : (∀ a ∈ asked, a.IsAnsweredBy (start + time)) → ok = true
  hanging : (∃ a ∈ asked, a.fate = .hangs) → stop = start + time

/-- A call that has its limit or the rest of the time ends when the first of the two does. -/
theorem add_min_rest {after time : Nat} (h : after ≤ time) (limit start : Nat) :
    start + after + min limit (time - after) = min (start + after + limit) (start + time) := by
  omega

theorem keepsTime_of_attemptEnds {r : Repository α} {s : BackupSchedule} {start stop : Nat}
    {asked : List Asked} {ok : Bool} (h : AttemptEnds r s start asked stop ok) :
    KeepsTime r.limit s.attempt start asked stop ok := by
  have hfirst : start + min r.limit s.attempt = min (start + r.limit) (start + s.attempt) :=
    add_min_rest (Nat.zero_le _) r.limit start
  cases h with
  | unlisted fate lost =>
    -- The only call has no answer, so the attempt ends with it.
    have htook := fate.took_le (min r.limit s.attempt)
    refine ⟨by omega, ?_, ?_, ?_⟩
    · simp
    · intro a ha hgivenUp
      rw [List.mem_singleton] at ha
      subst ha
      exact ⟨hgivenUp.stop_eq.trans hfirst, rfl, rfl⟩
    · simp only [Bool.false_eq_true, false_iff]
      intro hanswered
      have hcall := hanswered _ (List.mem_singleton_self _)
      dsimp only at hcall
      rw [← hfirst, Asked.isAnsweredBy_limit, lost] at hcall
      exact absurd hcall Bool.false_ne_true
  | unsaved after listed data fate lost =>
    -- The listing was answered, so only the write can be given up.
    have htook := fate.took_le (min r.limit (s.attempt - after))
    have hafter : after ≤ s.attempt := listed.trans (Nat.min_le_right _ _)
    have hsecond := add_min_rest hafter r.limit start
    refine ⟨by omega, ?_, ?_, ?_⟩
    · simp
    · intro a ha hgivenUp
      rcases List.mem_pair.1 ha with rfl | rfl
      · exact absurd hgivenUp (Nat.not_lt.2 listed)
      · exact ⟨hgivenUp.stop_eq.trans hsecond, rfl, rfl⟩
    · simp only [Bool.false_eq_true, false_iff]
      intro hanswered
      have hcall := hanswered _ (List.mem_pair.2 (.inr rfl))
      dsimp only at hcall
      rw [← hsecond, Asked.isAnsweredBy_limit, lost] at hcall
      exact absurd hcall Bool.false_ne_true
  | saved after listed data after' saved =>
    have hafter : after ≤ s.attempt := listed.trans (Nat.min_le_right _ _)
    have hsecond := add_min_rest hafter r.limit start
    refine ⟨by omega, ?_, ?_, ?_⟩
    · simp
    · intro a ha hgivenUp
      rcases List.mem_pair.1 ha with rfl | rfl
      · exact absurd hgivenUp (Nat.not_lt.2 listed)
      · exact absurd hgivenUp (Nat.not_lt.2 saved)
    · refine ⟨fun _ a ha => ?_, fun _ => rfl⟩
      rcases List.mem_pair.1 ha with rfl | rfl
      · exact ⟨after, rfl, by dsimp only; omega⟩
      · exact ⟨after', rfl, by dsimp only; omega⟩

/-- An attempt has its whole time if it keeps it with a limit that is no less. -/
theorem KeepsTime.hasWholeTime {limit time start stop : Nat} {asked : List Asked} {ok : Bool}
    (h : KeepsTime limit time start asked stop ok) (htime : time ≤ limit) :
    HasWholeTime time start asked stop ok := by
  have hbound (a : Asked) (ha : a ∈ asked) :
      min (a.start + limit) (start + time) = start + time := by
    have := h.begun a ha
    omega
  refine ⟨?_, ?_, ?_⟩
  · intro a ha hgivenUp
    rw [(h.givenUp a ha hgivenUp).1, hbound a ha]
  · intro hanswered
    refine h.success.2 fun a ha => ?_
    rw [hbound a ha]
    exact hanswered a ha
  · rintro ⟨a, ha, hhangs⟩
    have hgivenUp : a.IsGivenUp := by simp [Asked.IsGivenUp, hhangs]
    obtain ⟨hstop, hlast, -⟩ := h.givenUp a ha hgivenUp
    rw [hlast, hstop, hbound a ha]

/-- Attempts of a repository that gives calls up before the time is over do not have it all: a
listing may be answered too late for the repository, but in time for the attempt. -/
theorem hasWholeTime_iff (r : Repository α) (s : BackupSchedule) :
    (∀ start stop asked ok, (backupOnce r s).Timed start asked stop ok →
      HasWholeTime s.attempt start asked stop ok) ↔ s.attempt ≤ r.limit := by
  constructor
  · intro h
    by_contra hlimit
    -- The listing is answered at the last moment of the attempt, when it has been given up.
    have hlate : min r.limit s.attempt < s.attempt := by omega
    have hfails := (h _ _ _ _ (timed_late r s 0 hlate)).success fun a ha => by
      rw [List.mem_singleton] at ha
      subst ha
      exact ⟨s.attempt, rfl, le_rfl⟩
    exact absurd hfails Bool.false_ne_true
  · intro hlimit start stop asked ok run
    exact (keepsTime_of_attemptEnds (attemptEnds_of_timed run)).hasWholeTime hlimit

/-- The attempts of a workspace keep time with 30 seconds for each call, so all of them have the
whole time of their schedule exactly if that is no more than 30 seconds. -/
theorem wholeTime_iff (c : Workspace.Config) (α : Type) [Kind α] (s : BackupSchedule) :
    (∀ start stop asked ok, (backupOnce (c.repository α) s).Timed start asked stop ok →
      KeepsTime 30000 s.attempt start asked stop ok) ∧
    ((∀ start stop asked ok, (backupOnce (c.repository α) s).Timed start asked stop ok →
      HasWholeTime s.attempt start asked stop ok) ↔ s.attempt ≤ 30000) :=
  ⟨fun _ _ _ _ run => keepsTime_of_attemptEnds (attemptEnds_of_timed run),
    hasWholeTime_iff (c.repository α) s⟩

/-- With the default schedule, of three minutes an attempt, a listing of the photons that hangs ends
the attempt after 30 seconds. -/
theorem wholeTime_iff_hangingPhotons (c : Workspace.Config) :
    (∃ asked, (backupOnce c.photons {}).Timed 0 asked 30000 false ∧
      (∃ a ∈ asked, a.fate = .hangs) ∧ KeepsTime 30000 180000 0 asked 30000 false) ∧
    ¬∀ start stop asked ok, (backupOnce c.photons {}).Timed start asked stop ok →
      HasWholeTime 180000 start asked stop ok := by
  have hrun := timed_hanging c.photons {} 0
  have hstop : 0 + min c.photons.limit ({} : BackupSchedule).attempt = 30000 := by
    simp [Workspace.Config.photons, Workspace.Config.repository]
  rw [hstop] at hrun
  obtain ⟨hkeeps, hwhole⟩ := wholeTime_iff c Photon {}
  refine ⟨⟨_, hrun, ⟨_, List.mem_singleton_self _, rfl⟩, hkeeps _ _ _ _ hrun⟩, fun h => ?_⟩
  have hshort : (180000 : Nat) ≤ 30000 := hwhole.1 h
  omega

end Background

end Workplane
