import Workplane.Proofs.Program.Interleaving

/-!
# Programs that nothing disturbs

When every call of a program is answered by the backend and the clock stands still, the program has
one result (`Program.undisturbed`) and makes certain moves (`Program.undisturbedMoves`).  The rules
below follow the way programs are put together.  A program among others can be carried out to its
end in the same way (`Interleaving.undisturbed`).
-/

namespace Workplane

variable {α β : Type} {now : Timestamp} {b : Backend}

/-- The result of a program and the backend after it, when every call is answered and the clock
shows `now`. -/
def Program.undisturbed (now : Timestamp) : Program α → Backend → α × Backend
  | done a, b => (a, b)
  | call c _ next, b => (next ⟨.answered (c.answer b).1, 0⟩).undisturbed now (c.answer b).2
  | clock next, b => (next now).undisturbed now b

/-- The moves of a program when every call is answered and the clock shows `now`. -/
def Program.undisturbedMoves (now : Timestamp) : Program α → Backend → List Move
  | done _, _ => []
  | call c _ next, b =>
    .call c ⟨.answered (c.answer b).1, 0⟩ ::
      (next ⟨.answered (c.answer b).1, 0⟩).undisturbedMoves now (c.answer b).2
  | clock next, b => .clock now :: (next now).undisturbedMoves now b

namespace Program

theorem undisturbed_bind (p : Program α) (f : α → Program β) :
    (p >>= f).undisturbed now b =
      (f (p.undisturbed now b).1).undisturbed now (p.undisturbed now b).2 := by
  induction p generalizing b with
  | done a => rfl
  | call c limit next ih => exact ih _
  | clock next ih => exact ih _

/-- What a program promises whatever it is told holds of its result and its moves. -/
theorem Holds.undisturbed {permits : List Move → Option Call → Prop}
    {post : α → List Move → Prop} {p : Program α} {past : List Move}
    (h : p.Holds (.history permits) post past) (now : Timestamp) (b : Backend) :
    post (p.undisturbed now b).1 (past ++ p.undisturbedMoves now b) := by
  induction p generalizing past b with
  | done a => exact (List.append_nil past).symm ▸ h
  | call c limit next ih =>
    have hnext := ih _ (h.2 ⟨.answered (c.answer b).1, 0⟩ _ rfl) (c.answer b).2
    rw [List.append_assoc] at hnext
    exact hnext
  | clock next ih =>
    have hnext := ih now (h.2 now _ rfl) b
    rw [List.append_assoc] at hnext
    exact hnext

end Program

/-- A program that may fail goes on with its result. -/
theorem undisturbed_run_bind {ε : Type} {p : ExceptT ε Program α} {f : α → ExceptT ε Program β}
    {a : α} {b' : Backend} (h : p.run.undisturbed now b = (.ok a, b')) :
    (p >>= f).run.undisturbed now b = (f a).run.undisturbed now b' := by
  rw [ExceptT.run_bind, Program.undisturbed_bind, h]

/-- What is left of one of several programs can be carried out to its end. -/
theorem Interleaving.undisturbed {ι : Type} [DecidableEq ι] {start rest : ι → Program α}
    {t : Trace ι} (h : Interleaving start b t rest) (i : ι) (now : Timestamp) :
    Interleaving start b (t ++ ((rest i).undisturbedMoves now (b.replay t)).map (i, ·))
      (Function.update rest i (.done ((rest i).undisturbed now (b.replay t)).1)) := by
  generalize hp : rest i = p
  induction p generalizing t rest with
  | done a =>
    rw [Program.undisturbedMoves, List.map_nil, List.append_nil, Program.undisturbed, ← hp,
      Function.update_eq_self]
    exact h
  | call c limit next ih =>
    have hstep : (rest i).Step (.call c ⟨.answered (c.answer (b.replay t)).1, 0⟩)
        (next ⟨.answered (c.answer (b.replay t)).1, 0⟩) := by
      rw [hp]
      exact .call c limit next _
    have hnext := ih _ (h.snoc i _ _ hstep fun _ hanswer => (Outcome.answered.inj hanswer).symm)
      (Function.update_self ..)
    rw [Trace.replay_append, List.append_assoc, Function.update_idem] at hnext
    exact hnext
  | clock next ih =>
    have hstep : (rest i).Step (.clock now) (next now) := by
      rw [hp]
      exact .clock next now
    have hnext := ih _ (h.snoc i _ _ hstep trivial) (Function.update_self ..)
    rw [Trace.replay_append, List.append_assoc, Function.update_idem] at hnext
    exact hnext

end Workplane
