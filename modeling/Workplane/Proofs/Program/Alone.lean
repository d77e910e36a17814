import Workplane.Proofs.Deployments.Writer
import Workplane.Proofs.Program.Undisturbed

/-!
# Programs alone on a backend

`Program.Alone` describes how far a program has come that nothing runs beside: the moves that it has
made, the backend now, and what is left of it.  Calls may fail or be given up, without an effect
then.  Such a program is correct if it is correct whatever it has learned so far
(`Program.Alone.holds`), and what it has read without a change in between is still there
(`Program.Alone.get?_of_saw`).  What it does to its backend follows from its correctness in the
environment that answers as the backend does, or not at all (`Program.Alone.holds_alone`).
-/

namespace Workplane

namespace Program

open Writer

variable {α : Type} {p q : Program α} {b b' : Backend} {past : List Move}

/-- A program that started on a backend has made moves that are true of it, the backend after them,
and what is left of the program. -/
inductive Alone (p : Program α) (b : Backend) : List Move → Backend → Program α → Prop
  | start : Alone p b [] b p
  | move {past : List Move} {b' : Backend} {q : Program α} (run : Alone p b past b' q) (m : Move)
    (q' : Program α) (step : q.Step m q') (true_move : m.IsTrue b') :
    Alone p b (past ++ [m]) (m.after b') q'

namespace Alone

/-- A program that is correct whatever it has learned is correct alone. -/
theorem holds {permits : List Move → Option Call → Prop} {post : α → List Move → Prop}
    (h : p.Alone b past b' q) (hp : p.Holds (.history permits) post []) :
    q.Holds (.history permits) post past ∧
      ∀ u m v, past = u ++ m :: v → permits u m.request := by
  induction h with
  | start => exact ⟨hp, fun u m v huv => absurd huv.symm (by simp)⟩
  | @move past b' q run m q' step true_move ih =>
    refine ⟨ih.1.step step rfl, fun u m' v huv => ?_⟩
    rcases split_concat huv with ⟨rfl, rfl, rfl⟩ | ⟨w, -, rfl⟩
    · exact ih.1.permits step
    · exact ih.2 u m' w rfl

/-- A program that is done makes no moves. -/
theorem eq_of_done {a : α} (h : (Program.done a).Alone b past b' q) :
    past = [] ∧ b' = b ∧ q = .done a := by
  induction h with
  | start => exact ⟨rfl, rfl, rfl⟩
  | move run m q' step true_move ih =>
    obtain ⟨-, -, rfl⟩ := ih
    exact nomatch step

/-- Every call of a program alone was permitted at its point. -/
theorem permits_of_mem {permits : List Move → Option Call → Prop} {post : α → List Move → Prop}
    (h : p.Alone b past b' q) (hp : p.Holds (.history permits) post []) {m : Move}
    (hm : m ∈ past) : ∃ u, permits u m.request := by
  obtain ⟨u, v, huv⟩ := List.append_of_mem hm
  exact ⟨u, (h.holds hp).2 u m v huv⟩

/-- Every run was a shorter run before its last move. -/
theorem of_concat {m : Move} (h : p.Alone b (past ++ [m]) b' q) :
    ∃ b₁ q₁, p.Alone b past b₁ q₁ ∧ q₁.Step m q ∧ m.IsTrue b₁ ∧ b' = m.after b₁ := by
  generalize hnow : past ++ [m] = now at h
  cases h with
  | start => exact absurd hnow (by simp)
  | @move past' b₁ q₁ run m' _ step true_move =>
    obtain ⟨rfl, hm⟩ := List.append_inj' hnow rfl
    obtain rfl := (List.cons.inj hm).1
    exact ⟨b₁, q₁, run, step, true_move, rfl⟩

/-- A program that changed no key and put no blob leaves the backend as it was. -/
theorem eq_of_unchanged (h : p.Alone b past b' q) (hverdict : ∀ m ∈ past, m.verdict ≠ some true)
    (hblob : ∀ m ∈ past, ∀ key data, m.request ≠ some (.putBlob key data)) : b' = b := by
  induction h with
  | start => rfl
  | @move past b' q run m q' step true_move ih =>
    have hlast : m ∈ past ++ [m] := List.mem_append_right _ (.head [])
    rw [true_move.after_eq_of_verdict_ne (hverdict m hlast) (hblob m hlast)]
    exact ih (fun m hm => hverdict m (List.mem_append_left _ hm))
      fun m hm => hblob m (List.mem_append_left _ hm)

theorem keys_eq_of_quiet (h : p.Alone b past b' q) (hquiet : Quiet past) : b'.keys = b.keys := by
  induction h with
  | start => rfl
  | @move past b' q run m q' step true_move ih =>
    have hnone : m.verdict = none := hquiet m (List.mem_append_right _ (.head []))
    rw [true_move.keys_after (by rw [hnone]; exact nofun)]
    exact ih fun m hm => hquiet m (List.mem_append_left _ hm)

theorem valid_keys (h : p.Alone b past b' q) (hb : b.keys.Valid) : b'.keys.Valid := by
  induction h with
  | start => exact hb
  | move run m q' step true_move ih => exact true_move.valid_after ih

/-- What a look at a key was answered is so as long as the program changes nothing. -/
theorem get?_of_answered (h : p.Alone b past b' q) (hquiet : Quiet past) {key : String}
    {answer : Option Entry} {took : Nat}
    (hmem : .call (.get key) ⟨.answered answer, took⟩ ∈ past) : b.keys.get? key = answer := by
  induction h with
  | start => exact absurd hmem List.not_mem_nil
  | @move past b' q run m q' step true_move ih =>
    have hbefore : Quiet past := fun m hm => hquiet m (List.mem_append_left _ hm)
    rcases List.mem_append.1 hmem with hmem | hmem
    · exact ih hbefore hmem
    · obtain rfl := List.mem_singleton.1 hmem
      rw [← run.keys_eq_of_quiet hbefore]
      exact (true_move _ rfl).symm

/-- What a program has read is there as long as it changes nothing. -/
theorem get?_of_saw (h : p.Alone b past b' q) (hquiet : Quiet past) {key : String} {e : Entry}
    (hsaw : Saw past key e) : b.keys.get? key = some e := by
  obtain ⟨took, hmem⟩ := hsaw
  exact h.get?_of_answered hquiet hmem

/-- What is left of a program can be carried out to its end. -/
theorem undisturbed (h : p.Alone b past b' q) (now : Timestamp) :
    p.Alone b (past ++ q.undisturbedMoves now b') (q.undisturbed now b').2
      (.done (q.undisturbed now b').1) := by
  induction q generalizing past b' with
  | done a => exact (List.append_nil past).symm ▸ h
  | call call limit next ih =>
    have hnext := ih _ (h.move _ _ (.call call limit next ⟨.answered (call.answer b').1, 0⟩)
      fun _ hanswer => (Outcome.answered.inj hanswer).symm)
    rw [List.append_assoc] at hnext
    exact hnext
  | clock next ih =>
    have hnext := ih _ (h.move _ _ (.clock next now) trivial)
    rw [List.append_assoc] at hnext
    exact hnext

/-- A run of what is left of a program goes on with its run. -/
theorem trans {r : Program α} {b'' : Backend} {later : List Move} (h : p.Alone b past b' q)
    (h' : q.Alone b' later b'' r) : p.Alone b (past ++ later) b'' r := by
  induction h' with
  | start => exact (List.append_nil past).symm ▸ h
  | move run m q' step true_move ih =>
    rw [← List.append_assoc]
    exact ih.move m q' step true_move

/-- The first of two programs runs as it does alone. -/
theorem bind {β : Type} (h : p.Alone b past b' q) (f : α → Program β) :
    (p >>= f).Alone b past b' (q >>= f) := by
  induction h with
  | start => exact .start
  | move run m q' step true_move ih =>
    refine ih.move m (q' >>= f) ?_ true_move
    cases step with
    | call c limit next reply => exact .call c limit (fun reply => next reply >>= f) reply
    | clock next now => exact .clock (fun now => next now >>= f) now

end Alone

/-- A program that nothing disturbs is alone on its backend. -/
theorem exists_alone_undisturbed (p : Program α) (now : Timestamp) (b : Backend) :
    ∃ past, p.Alone b past (p.undisturbed now b).2 (.done (p.undisturbed now b).1) :=
  ⟨_, Alone.start.undisturbed now⟩

end Program

/-! ### What a program alone does to its backend -/

/-- The move is a call without an answer. -/
def Move.IsLost : Move → Prop
  | .call _ reply => reply.IsLost
  | .clock _ => False

/-- A call without an answer is of no effect. -/
theorem Move.IsLost.after_eq {m : Move} (h : m.IsLost) (b : Backend) : m.after b = b := by
  cases m with
  | clock now => rfl
  | call c reply =>
    obtain ⟨outcome, took⟩ := reply
    cases outcome with
    | answered answer => exact absurd rfl (h answer)
    | failed causes => rfl
    | gaveUp => rfl

/-- The environment of a program that is alone on a backend.  Its states are the moves so far and
the backend after them; as long as the program is not done, they have to satisfy an invariant. -/
def Environment.alone (inv : List Move → Backend → Prop) : Environment (List Move × Backend) where
  permits s _ := inv s.1 s.2
  allows s m s' := m.IsTrue s.2 ∧ s' = (s.1 ++ [m], m.after s.2)

variable {inv : List Move → Backend → Prop} {b b' : Backend} {past : List Move}

/-- After a call without an answer, the backend is as it was. -/
theorem Environment.eq_of_lost {c : Call} {reply : Reply c.Answer} {s : List Move × Backend}
    (hs : (alone inv).allows (past, b) (.call c reply) s) (hlost : reply.IsLost) :
    s = (past ++ [.call c reply], b) := by
  have hmove : Move.IsLost (.call c reply) := hlost
  rw [hs.2, hmove.after_eq]

namespace Program.Alone

variable {α : Type} {p q : Program α} {post : α → List Move × Backend → Prop}

/-- What is left of a program that is correct on its backend is correct. -/
theorem holds_alone (h : p.Alone b past b' q) (hp : p.Holds (.alone inv) post ([], b)) :
    q.Holds (.alone inv) post (past, b') := by
  induction h with
  | start => exact hp
  | move run m q' step true_move ih => exact ih.step step ⟨true_move, rfl⟩

end Program.Alone

/-- A program can be carried out without a call that is lost. -/
theorem Program.exists_alone_answered {α : Type} (p : Program α) (now : Timestamp) (b : Backend) :
    ∃ past, p.Alone b past (p.undisturbed now b).2 (.done (p.undisturbed now b).1) ∧
      ∀ m ∈ past, ¬m.IsLost := by
  induction p generalizing b with
  | done a => exact ⟨[], .start, fun m hm => absurd hm List.not_mem_nil⟩
  | call c limit next ih =>
    obtain ⟨past, run, answered⟩ := ih ⟨.answered (c.answer b).1, 0⟩ (c.answer b).2
    let m : Move := .call c ⟨.answered (c.answer b).1, 0⟩
    have first : (Program.call c limit next).Alone b [m] (c.answer b).2 (next _) :=
      Program.Alone.start.move m _ (.call c limit next _)
        fun _ hanswer => (Outcome.answered.inj hanswer).symm
    refine ⟨m :: past, first.trans run, fun m' hm' => ?_⟩
    rcases List.mem_cons.1 hm' with rfl | hm'
    · exact fun hlost => hlost _ rfl
    · exact answered m' hm'
  | clock next ih =>
    obtain ⟨past, run, answered⟩ := ih now b
    have first : (Program.clock next).Alone b [.clock now] b (next now) :=
      Program.Alone.start.move (.clock now) _ (.clock next now) trivial
    refine ⟨.clock now :: past, first.trans run, fun m' hm' => ?_⟩
    rcases List.mem_cons.1 hm' with rfl | hm'
    · exact id
    · exact answered m' hm'

end Workplane
