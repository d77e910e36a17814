import Mathlib.Data.List.Induction
import Mathlib.Data.List.Lex
import Mathlib.Order.WithBot
import Workplane.Replica.Readiness

/-!
# The latest event of a class

`latestWhere` runs through the events once and keeps the last strict improvement.  What it finds is
the event of the class that no other one of the class follows in time, the first of them if several
were observed at the same time (`latestWhere_eq_some_iff`).  When no two events were observed at the
same time, the list does not matter any more, only what is in it
(`isLatest_iff_of_pairwise_ne`), so every arrangement of the events has the same latest one
(`latestWhere_perm`).
-/

namespace Workplane

/-! ### The order of the events in time -/

namespace Timestamp

theorem fields_injective {t u : Timestamp} (h : t.fields = u.fields) : t = u := by
  obtain ⟨year, month, day, hour, minute, second, nanosecond⟩ := t
  obtain ⟨year', month', day', hour', minute', second', nanosecond'⟩ := u
  simp only [fields, List.cons.injEq, Int.natCast_inj, and_true] at h
  simpa using h

end Timestamp

/-- When an event was observed, in the order of time; no time at all is the earliest. -/
def Event.moment (e : Event) : WithBot (List Int) :=
  match e.observedAt with
  | some t => (t.fields : WithBot (List Int))
  | none => ⊥

theorem Event.moment_inj {e f : Event} : e.moment = f.moment ↔ e.observedAt = f.observedAt := by
  unfold moment
  constructor
  · intro h
    cases he : e.observedAt with
    | none =>
      cases hf : f.observedAt with
      | none => rfl
      | some u =>
        rw [he, hf] at h
        exact absurd h.symm WithBot.coe_ne_bot
    | some t =>
      cases hf : f.observedAt with
      | none =>
        rw [he, hf] at h
        exact absurd h WithBot.coe_ne_bot
      | some u =>
        rw [he, hf] at h
        rw [Timestamp.fields_injective (WithBot.coe_inj.1 h)]
  · intro h
    rw [h]

namespace Readiness

theorem isLater_iff {e f : Event} : isLater e f = true ↔ f.moment < e.moment := by
  unfold isLater Event.moment
  cases e.observedAt <;> cases f.observedAt
  · simp
  · simp
  · simp [WithBot.bot_lt_coe]
  · simp [Timestamp.before]

/-! ### What the latest event is -/

/-- `e` is the latest event of a class: none of the class was observed later, and none that stands
before it at the same time. -/
def IsLatest (P : Event → Prop) (events : List Event) (e : Event) : Prop :=
  P e ∧ (∀ f ∈ events, P f → f.moment ≤ e.moment) ∧
    ∃ before after, events = before ++ e :: after ∧ ∀ f ∈ before, P f → f.moment ≠ e.moment

variable {P : Event → Prop} {p : Event → Bool} {events events' : List Event} {e e' : Event}

theorem IsLatest.mem (h : IsLatest P events e) : e ∈ events := by
  obtain ⟨-, -, before, after, rfl, -⟩ := h
  simp

/-- There is at most one latest event of a class. -/
theorem IsLatest.unique (h : IsLatest P events e) (h' : IsLatest P events e') : e = e' := by
  have hmoment : e.moment = e'.moment := le_antisymm (h'.2.1 e h.mem h.1) (h.2.1 e' h'.mem h'.1)
  obtain ⟨he, -, before, after, rfl, hbefore⟩ := h
  obtain ⟨he', -, before', after', heq, hbefore'⟩ := h'
  -- Neither stands before the other, so both stand at the same place.
  rcases List.append_eq_append_iff.1 heq with ⟨_ | ⟨f, as⟩, rfl, htail⟩ | ⟨_ | ⟨f, as⟩, rfl, htail⟩
  · simpa using (List.cons.inj htail).1
  · obtain rfl : e = f := (List.cons.inj htail).1
    exact absurd hmoment (hbefore' e (by simp) he)
  · simpa using (List.cons.inj htail).1.symm
  · obtain rfl : e' = f := (List.cons.inj htail).1
    exact absurd hmoment.symm (hbefore e' (by simp) he')

/-! ### The scan -/

/-- The last of the events replaces the latest one unless it is earlier. -/
theorem latest_concat (events : List Event) (e : Event) :
    latest (events ++ [e]) =
      some (match latest events with
        | some l => if isLater e l then e else l
        | none => e) := by
  cases events with
  | nil => rfl
  | cons f rest => simp [latest]

/-- One event more: it is the latest of its class if it was observed after the one so far. -/
theorem latestWhere_concat (p : Event → Bool) (events : List Event) (e : Event) :
    latestWhere p (events ++ [e]) =
      if p e then
        some (match latestWhere p events with
          | some l => if isLater e l then e else l
          | none => e)
      else latestWhere p events := by
  unfold latestWhere
  rw [List.filter_append, List.filter_singleton]
  by_cases he : p e <;> simp [he, latest_concat]

/-- Nothing is found exactly if no event satisfies the condition. -/
theorem latestWhere_eq_none_iff : latestWhere p events = none ↔ ∀ f ∈ events, ¬p f = true := by
  rw [← List.filter_eq_nil_iff, latestWhere]
  cases events.filter p <;> simp [latest]

/-- What does not satisfy the condition does not matter. -/
theorem IsLatest.concat_of_not (h : IsLatest P events e) (hP : ¬P e') :
    IsLatest P (events ++ [e']) e := by
  obtain ⟨he, hmax, before, after, rfl, hbefore⟩ := h
  refine ⟨he, ?_, before, after ++ [e'], by simp, hbefore⟩
  intro f hf hPf
  rcases List.mem_append.1 hf with hf | hf
  · exact hmax f hf hPf
  · obtain rfl := List.mem_singleton.1 hf
    exact absurd hPf hP

/-- What comes last but is not later does not matter. -/
theorem IsLatest.concat_of_le (h : IsLatest P events e) (hle : e'.moment ≤ e.moment) :
    IsLatest P (events ++ [e']) e := by
  obtain ⟨he, hmax, before, after, rfl, hbefore⟩ := h
  refine ⟨he, ?_, before, after ++ [e'], by simp, hbefore⟩
  intro f hf hPf
  rcases List.mem_append.1 hf with hf | hf
  · exact hmax f hf hPf
  · obtain rfl := List.mem_singleton.1 hf
    exact hle

/-- What comes last and is later than all is the latest. -/
theorem isLatest_concat (hP : P e) (hlt : ∀ f ∈ events, P f → f.moment < e.moment) :
    IsLatest P (events ++ [e]) e := by
  refine ⟨hP, ?_, events, [], rfl, fun f hf hPf => (hlt f hf hPf).ne⟩
  intro f hf hPf
  rcases List.mem_append.1 hf with hf | hf
  · exact (hlt f hf hPf).le
  · obtain rfl := List.mem_singleton.1 hf
    exact le_rfl

/-- The scan finds the latest event of the class. -/
theorem isLatest_of_latestWhere (h : latestWhere p events = some e) :
    IsLatest (fun f => p f = true) events e := by
  -- The induction takes the events in the order in which the scan sees them.
  induction events using List.reverseRecOn generalizing e with
  | nil => simp [latestWhere, latest] at h
  | append_singleton events f ih =>
    rw [latestWhere_concat] at h
    by_cases hf : p f = true
    · rw [if_pos hf] at h
      cases hl : latestWhere p events with
      | none =>
        rw [hl] at h
        obtain rfl := Option.some.inj h
        exact isLatest_concat hf fun g hg hpg => absurd hpg (latestWhere_eq_none_iff.1 hl g hg)
      | some l =>
        rw [hl] at h
        obtain rfl := Option.some.inj h
        have hlatest := ih hl
        by_cases hlater : isLater f l = true
        · simp only [hlater, if_true]
          refine isLatest_concat hf fun g hg hpg => ?_
          exact lt_of_le_of_lt (hlatest.2.1 g hg hpg) (isLater_iff.1 hlater)
        · simp only [hlater, if_false, Bool.false_eq_true]
          exact hlatest.concat_of_le (not_lt.1 fun hlt => hlater (isLater_iff.2 hlt))
    · rw [if_neg hf] at h
      exact (ih h).concat_of_not hf

/-- The event that is found is the latest one that satisfies the condition. -/
theorem latestWhere_eq_some_iff :
    latestWhere p events = some e ↔ IsLatest (fun f => p f = true) events e := by
  constructor
  · exact isLatest_of_latestWhere
  · intro h
    cases hl : latestWhere p events with
    | none => exact absurd h.1 (latestWhere_eq_none_iff.1 hl e h.mem)
    | some l => rw [(isLatest_of_latestWhere hl).unique h]

theorem latestWhere_true (events : List Event) :
    latestWhere (fun _ => true) events = latest events := by
  rw [latestWhere, List.filter_eq_self.2 fun _ _ => rfl]

/-- If no two events were observed at the same time, the latest one is the one after which none was
observed, wherever it stands. -/
theorem isLatest_iff_of_pairwise_ne
    (h : events.Pairwise fun e f => e.observedAt ≠ f.observedAt) :
    IsLatest P events e ↔ e ∈ events ∧ P e ∧ ∀ f ∈ events, P f → f.moment ≤ e.moment := by
  constructor
  · intro hlatest
    exact ⟨hlatest.mem, hlatest.1, hlatest.2.1⟩
  · rintro ⟨hmem, hP, hmax⟩
    obtain ⟨before, after, rfl⟩ := List.append_of_mem hmem
    refine ⟨hP, hmax, before, after, rfl, fun f hf _ heq => ?_⟩
    have hne := (List.pairwise_append.1 h).2.2 f hf e (by simp)
    exact hne (Event.moment_inj.1 heq)

/-- The latest event of a class does not depend on the order of the list, if no two events were
observed at the same time. -/
theorem latestWhere_perm (p : Event → Bool) (hperm : events.Perm events')
    (h : events.Pairwise fun e f => e.observedAt ≠ f.observedAt) :
    latestWhere p events = latestWhere p events' := by
  have h' : events'.Pairwise fun e f => e.observedAt ≠ f.observedAt :=
    (hperm.pairwise_iff Ne.symm).1 h
  ext e
  rw [latestWhere_eq_some_iff, latestWhere_eq_some_iff, isLatest_iff_of_pairwise_ne h,
    isLatest_iff_of_pairwise_ne h']
  simp only [hperm.mem_iff]

end Readiness

end Workplane
