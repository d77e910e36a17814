import Workplane.Background.Routine
import Workplane.Proofs.Program.Interleaving
import Workplane.Proofs.Program.Undisturbed

/-!
# Processes on a common backend

A process is a program that ends, or a routine that makes its rounds.  Processes on a common backend
make their moves one at a time, in any order (`Concurrent`); between its rounds a routine pauses for
any time, so what is proved of all runs holds for every timing.  A process that is cancelled in its
pause is one that makes no further turn.

A process that is correct whatever it has learned so far is correct among others
(`Concurrent.holds`).  A process that is the only one to change keys may in addition rely on the
keys that it has read (`Concurrent.keyed`).
-/

namespace Workplane

variable {ι α σ : Type}

/-- A program that ends, or a routine in one of its rounds or in the pause before one. -/
inductive Process (α : Type) where
  | program (rest : Program α)
  | round (rest : Program (Option (Routine × Nat)))
  | pause (next : Routine)

namespace Process

/-- A process makes a move. -/
inductive Step : Process α → Move → Process α → Prop
  | program {p q : Program α} {m : Move} (step : p.Step m q) : Step (program p) m (program q)
  | round {p q : Program (Option (Routine × Nat))} {m : Move} (step : p.Step m q) :
    Step (round p) m (round q)

/-- A process goes on without a move: its round is over, or its pause is. -/
inductive Turn : Process α → Process α → Prop
  | rest (next : Routine) (ms : Nat) : Turn (round (.done (some (next, ms)))) (pause next)
  | wake (next : Routine) : Turn (pause next) (round next.round)

/-! ### Correct processes -/

variable {env : Environment σ} {law : Routine → σ → Prop} {post : α → σ → Prop} {s s' : σ}
  {p q : Process α} {m : Move}

/-- A round of a routine is correct if what remains to be done afterwards obeys a law. -/
def RoundHolds (env : Environment σ) (law : Routine → σ → Prop)
    (p : Program (Option (Routine × Nat))) (s : σ) : Prop :=
  p.Holds env (fun next s' => ∀ r ms, next = some (r, ms) → law r s') s

/-- The rounds of routines that obey a law are correct. -/
def Lawful (env : Environment σ) (law : Routine → σ → Prop) : Prop :=
  ∀ r s, law r s → RoundHolds env law r.round s

/-- From state `s` on, the process takes only permitted steps, a program ends only with results
that satisfy `post`, and a routine keeps to its law. -/
def Holds (env : Environment σ) (law : Routine → σ → Prop) (post : α → σ → Prop) :
    Process α → σ → Prop
  | program p, s => p.Holds env post s
  | round p, s => RoundHolds env law p s
  | pause r, s => law r s

theorem Holds.permits (h : p.Holds env law post s) (hstep : p.Step m q) :
    env.permits s m.request := by
  cases hstep with
  | program step => exact Program.Holds.permits h step
  | round step => exact Program.Holds.permits h step

theorem Holds.step (h : p.Holds env law post s) (hstep : p.Step m q) (hs : env.allows s m s') :
    q.Holds env law post s' := by
  cases hstep with
  | program step => exact Program.Holds.step h step hs
  | round step => exact Program.Holds.step h step hs

theorem Holds.turn (hlaw : Lawful env law) (h : p.Holds env law post s) (hturn : p.Turn q) :
    q.Holds env law post s := by
  cases hturn with
  | rest next ms => exact h next ms rfl
  | wake next => exact hlaw next s h

/-- A routine whose work is correct is correct. -/
theorem roundHolds_forever {work : Program Bool} {afterSuccess afterFailure : Nat}
    (h : work.Holds env (fun _ s' => law (.forever work afterSuccess afterFailure) s') s) :
    RoundHolds env law (Routine.forever work afterSuccess afterFailure).round s := by
  refine Program.holds_bind.2 (h.mono fun ok s' hs' => ?_)
  rintro r ms hnext
  obtain rfl := (Prod.mk.inj (Option.some.inj hnext)).1
  exact hs'

theorem roundHolds_untilSuccess {work : Program Bool} {afterFailure : Nat} {next : Routine}
    (h : work.Holds env (fun ok s' => if ok then RoundHolds env law next.round s'
      else law (.untilSuccess work afterFailure next) s') s) :
    RoundHolds env law (Routine.untilSuccess work afterFailure next).round s := by
  refine Program.holds_bind.2 (h.mono fun ok s' hs' => ?_)
  cases ok with
  | true => exact hs'
  | false =>
    rintro r ms hnext
    obtain rfl := (Prod.mk.inj (Option.some.inj hnext)).1
    exact hs'

end Process

/-! ### Processes at the same time -/

section Concurrent

variable [DecidableEq ι] {start now : ι → Process α} {b : Backend} {t : Trace ι} {i : ι}

/-- Processes that started from `start` have made the moves of a trace on a common backend, and
what each of them does now. -/
inductive Concurrent (start : ι → Process α) (b : Backend) : Trace ι → (ι → Process α) → Prop
  | nil : Concurrent start b [] start
  | move {t : Trace ι} {now : ι → Process α} (run : Concurrent start b t now) (i : ι) (m : Move)
      (q : Process α) (step : (now i).Step m q) (true_move : m.IsTrue (b.replay t)) :
      Concurrent start b (t ++ [(i, m)]) (Function.update now i q)
  | turn {t : Trace ι} {now : ι → Process α} (run : Concurrent start b t now) (i : ι)
      (q : Process α) (turn : (now i).Turn q) : Concurrent start b t (Function.update now i q)

namespace Concurrent

theorem isTrue (h : Concurrent start b t now) : t.IsTrue b := by
  induction h with
  | nil => trivial
  | move run i m q step true_move ih => exact Trace.isTrue_append.2 ⟨ih, true_move, trivial⟩
  | turn run i q turn ih => exact ih

/-- Every front part of a run is a run. -/
theorem exists_of_append {u v : Trace ι} (h : Concurrent start b (u ++ v) now) :
    ∃ now', Concurrent start b u now' := by
  generalize ht : u ++ v = t at h
  induction h generalizing v with
  | nil =>
    rw [(List.append_eq_nil_iff.1 ht).1]
    exact ⟨start, .nil⟩
  | @move t now run i m q step true_move ih =>
    rcases List.eq_nil_or_concat v with rfl | ⟨v, s, rfl⟩
    · rw [List.append_nil] at ht
      exact ⟨_, ht ▸ run.move i m q step true_move⟩
    · rw [List.concat_eq_append, ← List.append_assoc] at ht
      exact ih (List.append_inj' ht rfl).1
  | turn run i q turn ih => exact ih ht

/-- A process that is correct on its own is correct among others: what it does now is correct, and
each of its moves was permitted when it was made. -/
theorem holds {permits : List Move → Option Call → Prop} {law : Routine → List Move → Prop}
    {post : α → List Move → Prop} (h : Concurrent start b t now)
    (hlaw : Process.Lawful (.history permits) law)
    (correct : (start i).Holds (.history permits) law post []) :
    (now i).Holds (.history permits) law post (t.own i) ∧
      ∀ u m v, t = u ++ (i, m) :: v → permits (Trace.own u i) m.request := by
  induction h with
  | nil => exact ⟨correct, fun u m v huv => absurd huv.symm (by simp)⟩
  | @move t now run j m q step true_move ih =>
    refine ⟨?_, fun u m' v huv => ?_⟩
    · rcases Decidable.em (j = i) with rfl | hne
      · rw [Function.update_self, Trace.own_concat_self]
        exact ih.1.step step rfl
      · rw [Function.update_of_ne (Ne.symm hne), Trace.own_concat_of_ne t hne]
        exact ih.1
    -- The move is the last one, or was made before it.
    · rcases split_concat huv with ⟨rfl, hs, rfl⟩ | ⟨w, -, rfl⟩
      · obtain ⟨rfl, rfl⟩ := Prod.mk.inj hs
        exact ih.1.permits step
      · exact ih.2 u m' w rfl
  | @turn t now run j q turn ih =>
    refine ⟨?_, ih.2⟩
    rcases Decidable.em (j = i) with rfl | hne
    · rw [Function.update_self]
      exact ih.1.turn hlaw turn
    · rw [Function.update_of_ne (Ne.symm hne)]
      exact ih.1

/-- A program that is correct on its own keeps its promises among others. -/
theorem of_program {permits : List Move → Option Call → Prop} {post : α → List Move → Prop}
    (h : Concurrent start b t now) {p : Program α} (hi : start i = .program p)
    (hp : p.Holds (.history permits) post []) :
    (∀ a, now i = .program (.done a) → post a (t.own i)) ∧
      ∀ u m v, t = u ++ (i, m) :: v → permits (Trace.own u i) m.request := by
  have hlaw : Process.Lawful (.history permits) fun _ _ => False := fun _ _ => False.elim
  have correct : (start i).Holds (.history permits) (fun _ _ => False) post [] := by
    rw [hi]
    exact hp
  obtain ⟨hnow, hpermits⟩ := h.holds hlaw correct
  refine ⟨fun a ha => ?_, hpermits⟩
  rw [ha] at hnow
  exact hnow

/-- A routine that obeys a law makes only permitted moves among others. -/
theorem of_routine {permits : List Move → Option Call → Prop}
    {law : Routine → List Move → Prop} (h : Concurrent start b t now)
    (hlaw : Process.Lawful (.history permits) law) {r : Routine} (hi : start i = .pause r)
    (hr : law r []) {u v : Trace ι} {m : Move} (huv : t = u ++ (i, m) :: v) :
    permits (Trace.own u i) m.request := by
  have correct : (start i).Holds (.history permits) law (fun _ _ => True) [] := by
    rw [hi]
    exact hr
  exact (h.holds hlaw correct).2 u m v huv

/-- Process `i` can go on to `q` and leave the backend as `b'`, with nothing else in between, while
the clock shows `clock`. -/
def Reaches (start : ι → Process α) (b : Backend) (t : Trace ι) (now : ι → Process α) (i : ι)
    (clock : Timestamp) (q : Process α) (b' : Backend) : Prop :=
  ∃ u, (∀ s ∈ u, s.1 = i ∧ ∀ shown, s.2 = .clock shown → shown = clock) ∧
    b.replay (t ++ u) = b' ∧ Concurrent start b (t ++ u) (Function.update now i q)

theorem Reaches.of_move {m : Move} {clock : Timestamp} {p q : Process α} {b' : Backend}
    (h : Reaches start b (t ++ [(i, m)]) (Function.update now i p) i clock q b')
    (hm : ∀ shown, m = .clock shown → shown = clock) :
    Reaches start b t now i clock q b' := by
  obtain ⟨u, hu, hend, hrun⟩ := h
  rw [List.append_assoc] at hend hrun
  rw [Function.update_idem] at hrun
  exact ⟨(i, m) :: u, List.forall_mem_cons.2 ⟨⟨rfl, hm⟩, hu⟩, hend, hrun⟩

/-- What is left of a round can be carried out to its end. -/
theorem reaches_undisturbed (h : Concurrent start b t now) {b' : Backend} (hb : b.replay t = b')
    {p : Program (Option (Routine × Nat))} (hp : now i = .round p) (clock : Timestamp) :
    Reaches start b t now i clock (.round (.done (p.undisturbed clock b').1))
      (p.undisturbed clock b').2 := by
  induction p generalizing t now b' with
  | done a =>
    refine ⟨[], by simp, by rw [List.append_nil, hb]; rfl, ?_⟩
    rw [List.append_nil, Program.undisturbed, ← hp, Function.update_eq_self]
    exact h
  | call c limit next ih =>
    have hstep : (now i).Step (.call c ⟨.answered (c.answer b').1, 0⟩)
        (.round (next ⟨.answered (c.answer b').1, 0⟩)) := by
      rw [hp]
      exact .round (.call c limit next _)
    have hnext := h.move i _ _ hstep fun _ hanswer => hb ▸ (Outcome.answered.inj hanswer).symm
    refine .of_move (ih _ hnext ?_ (Function.update_self ..)) (by simp)
    rw [Trace.replay_append, hb]
    rfl
  | clock next ih =>
    have hstep : (now i).Step (.clock clock) (.round (next clock)) := by
      rw [hp]
      exact .round (.clock next clock)
    have hnext := h.move i _ _ hstep trivial
    refine .of_move (ih _ hnext ?_ (Function.update_self ..)) fun _ h => (Move.clock.inj h).symm
    rw [Trace.replay_append, hb]
    rfl

/-- A routine that pauses can make its next round. -/
theorem reaches_round (h : Concurrent start b t now) {b' : Backend} (hb : b.replay t = b')
    {r : Routine} (hr : now i = .pause r) (clock : Timestamp) :
    Reaches start b t now i clock (.round (.done (r.round.undisturbed clock b').1))
      (r.round.undisturbed clock b').2 := by
  have hturn := h.turn i (.round r.round) (hr ▸ .wake r)
  obtain ⟨u, hu, hend, hrun⟩ := hturn.reaches_undisturbed hb (Function.update_self ..) clock
  rw [Function.update_idem] at hrun
  exact ⟨u, hu, hend, hrun⟩

end Concurrent

end Concurrent

/-! ### The only process that changes keys -/

section Keyed

variable {R : KeyStore → KeyStore → Prop}

/-- A program that relies on the keys of the backend; its moves have to relate the keys before and
after. -/
def Environment.keyed (R : KeyStore → KeyStore → Prop) : Environment KeyStore where
  permits s call := ∀ m : Move, ∀ b : Backend, m.request = call → b.keys = s → m.IsTrue b →
    R s (m.after b).keys
  allows s m s' := ∃ b : Backend, b.keys = s ∧ m.IsTrue b ∧ s' = (m.after b).keys

variable [DecidableEq ι] {start now : ι → Process α} {b : Backend} {t : Trace ι} {i : ι}
  {law : Routine → KeyStore → Prop} {post : α → KeyStore → Prop}

/-- If a process is the only one that changes keys, it is correct among others, and the keys at any
two moments are related. -/
theorem Concurrent.keyed (h : Concurrent start b t now) (hrefl : ∀ s, R s s)
    (htrans : ∀ s s' s'', R s s' → R s' s'' → R s s'')
    (hlaw : Process.Lawful (.keyed R) law)
    (correct : (start i).Holds (.keyed R) law post b.keys)
    (others : ∀ j m, j ≠ i → (j, m) ∈ t → m.verdict ≠ some true) :
    (now i).Holds (.keyed R) law post (b.replay t).keys ∧
      ∀ u v, t = u ++ v → R (b.replay u).keys (b.replay t).keys := by
  induction h with
  | nil =>
    refine ⟨correct, fun u v huv => ?_⟩
    obtain ⟨rfl, -⟩ := List.append_eq_nil_iff.1 huv.symm
    exact hrefl _
  | @move t now run j m q step true_move ih =>
    obtain ⟨hnow, hpast⟩ := ih fun j' m' hne hm => others j' m' hne (List.mem_append_left _ hm)
    have hafter : b.replay (t ++ [(j, m)]) = m.after (b.replay t) := Trace.replay_append _ _
    -- Only moves of the process itself change the keys.
    have hrelated : R (b.replay t).keys (m.after (b.replay t)).keys := by
      rcases Decidable.em (j = i) with rfl | hne
      · exact hnow.permits step m (b.replay t) rfl rfl true_move
      · rw [true_move.keys_after (others j m hne (List.mem_append_right _ (.head [])))]
        exact hrefl _
    refine ⟨?_, fun u v huv => ?_⟩
    · rw [hafter]
      rcases Decidable.em (j = i) with rfl | hne
      · rw [Function.update_self]
        exact hnow.step step ⟨b.replay t, rfl, true_move, rfl⟩
      · rw [Function.update_of_ne (Ne.symm hne),
          true_move.keys_after (others j m hne (List.mem_append_right _ (.head [])))]
        exact hnow
    · rcases List.eq_nil_or_concat v with rfl | ⟨v, s, rfl⟩
      · rw [List.append_nil] at huv
        rw [huv]
        exact hrefl _
      · rw [List.concat_eq_append, ← List.append_assoc] at huv
        rw [hafter]
        exact htrans _ _ _ (hpast u v (List.append_inj' huv rfl).1) hrelated
  | @turn t now run j q turn ih =>
    obtain ⟨hnow, hpast⟩ := ih others
    refine ⟨?_, hpast⟩
    rcases Decidable.em (j = i) with rfl | hne
    · rw [Function.update_self]
      exact hnow.turn hlaw turn
    · rw [Function.update_of_ne (Ne.symm hne)]
      exact hnow

end Keyed

end Workplane
