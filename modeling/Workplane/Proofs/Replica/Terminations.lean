import Std.Data.String.ToInt
import Workplane.Proofs.Service.Reports

/-!
# How containers ended

What is said of an exit code tells the code (`ExitCode.explain_injective`).  `ExitCode.Says` lists
the three kinds of texts: the words of some codes, the number of a fatal signal, and the number of
the code itself.  The last two begin differently from each other and from all words, and what
follows the beginning is a number as it is printed; a signal with words of its own is never named by
its number.

`Termination.diagnosis_complete` says that the list of abnormal ends has one record for each
container that ended abnormally (`ContainerStatus.EndedAbnormally`), in their order, and what each
record says (`Termination.Records`).
-/

namespace Workplane

/-! ### Exit codes in words -/

namespace ExitCode

/-- The codes with words of their own. -/
def words : List (Int × String) :=
  [(0, "Success"), (1, "General application error"),
    (2, "Shell misuse: missing keyword or command"), (126, "Command found but not executable"),
    (127, "Command not found"), (130, "Terminated by SIGINT (Ctrl+C)"),
    (137, "Terminated by SIGKILL, possibly out of memory (OOM)"),
    (139, "Terminated by SIGSEGV (segmentation fault)"), (143, "Terminated by SIGTERM")]

/-- How the text begins that names a fatal signal. -/
def signalStart : String := "Terminated by fatal signal "

/-- How the text begins that names an exit code. -/
def codeStart : String := "Unknown error with exit code "

/-- What is said of a code. -/
inductive Says (n : Int) (text : String) : Prop
  | words (listed : (n, text) ∈ words)
  | signal (range : 128 ≤ n ∧ n ≤ 165) (named : text = signalStart ++ toString (n - 128))
  | code (named : text = codeStart ++ toString n)

theorem Says.ite {n k : Int} {text rest : String} (listed : (k, text) ∈ ExitCode.words)
    (h : Says n rest) : Says n (if n = k then text else rest) := by
  by_cases hn : n = k
  · rw [if_pos hn, hn]
    exact .words listed
  · rw [if_neg hn]
    exact h

theorem says_explain (code : Int32) : Says code.toInt (explain code) := by
  unfold explain
  dsimp only
  -- The codes with words come first, in the order of the list.
  iterate 9 refine Says.ite (by decide) ?_
  by_cases hrange : 128 ≤ code.toInt ∧ code.toInt ≤ 165
  · rw [if_pos hrange]
    exact .signal hrange rfl
  · rw [if_neg hrange]
    exact .code rfl

/-- No words begin as the texts with a number, and these begin differently. -/
theorem words_apart {n : Int} {text start number : String} (h : (n, text) ∈ words)
    (hstart : start = signalStart ∨ start = codeStart) : text ≠ start ++ number := by
  have hapart : ∀ w ∈ words, ¬signalStart.toList <+: w.2.toList ∧
      ¬codeStart.toList <+: w.2.toList := by decide +kernel
  rintro rfl
  have hprefix : start.toList <+: (start ++ number).toList := by
    rw [String.toList_append]
    exact List.prefix_append _ _
  rcases hstart with rfl | rfl
  · exact (hapart _ h).1 hprefix
  · exact (hapart _ h).2 hprefix

theorem signal_ne_code {number number' : String} : signalStart ++ number ≠ codeStart ++ number' := by
  intro h
  have hhead := congrArg (fun text : String => text.toList.head?) h
  rw [String.toList_append, String.toList_append] at hhead
  revert hhead
  simp [signalStart, codeStart]

theorem words_distinct {m n : Int} {text : String} (hm : (m, text) ∈ words)
    (hn : (n, text) ∈ words) : m = n := by
  have hdistinct : ∀ w ∈ words, ∀ w' ∈ words, w.2 = w'.2 → w.1 = w'.1 := by
    decide +kernel
  exact hdistinct _ hm _ hn rfl

/-- A text is said of one code only. -/
theorem Says.unique {m n : Int} {text : String} (hm : Says m text) (hn : Says n text) : m = n := by
  rcases hm with listed | ⟨range, rfl⟩ | rfl
  · rcases hn with listed' | ⟨-, h⟩ | h
    · exact words_distinct listed listed'
    · exact absurd h (words_apart listed (Or.inl rfl))
    · exact absurd h (words_apart listed (Or.inr rfl))
  · rcases hn with listed | ⟨range', h⟩ | h
    · exact absurd rfl (words_apart listed (Or.inl rfl))
    · have := Int.repr_inj.1 ((String.append_right_inj signalStart).1 h)
      omega
    · exact absurd h signal_ne_code
  · rcases hn with listed | ⟨-, h⟩ | h
    · exact absurd rfl (words_apart listed (Or.inr rfl))
    · exact absurd h.symm signal_ne_code
    · exact Int.repr_inj.1 ((String.append_right_inj codeStart).1 h)

/-- What is said of an exit code tells the code. -/
theorem explain_injective : Function.Injective explain := by
  intro code code' h
  have hsays := says_explain code'
  rw [← h] at hsays
  exact Int32.toInt_inj.1 ((says_explain code).unique hsays)

theorem Says.ne_empty {n : Int} {text : String} (h : Says n text) : text ≠ "" := by
  have happend {start number : String} (hne : start.toList ≠ []) : start ++ number ≠ "" := by
    intro hempty
    have hlist := congrArg String.toList hempty
    rw [String.toList_append] at hlist
    exact hne (List.append_eq_nil_iff.1 hlist).1
  rcases h with listed | ⟨-, rfl⟩ | rfl
  · have hwords : ∀ w ∈ ExitCode.words, w.2 ≠ "" := by decide
    exact hwords _ listed
  · exact happend (by decide)
  · exact happend (by decide)

end ExitCode

/-! ### Abnormal ends -/

/-- The last state of the container is an end, and the container had not completed. -/
def ContainerStatus.EndedAbnormally (s : ContainerStatus) : Prop :=
  ∃ e ∈ s.lastState.join, e.reason ≠ "Completed"

instance (s : ContainerStatus) : Decidable s.EndedAbnormally :=
  inferInstanceAs (Decidable (∃ e ∈ s.lastState.join, e.reason ≠ "Completed"))

namespace Termination

/-- What is reported of an end is kept, and the exit code explains what is not. -/
structure Records (e : ContainerEnd) (t : Termination) : Prop where
  startedAt : t.startedAt = e.startedAt
  finishedAt : t.finishedAt = e.finishedAt
  exitCode : t.exitCode = e.exitCode
  reason : t.reason = if e.reason = "" then ExitCode.explain e.exitCode else e.reason
  message : t.message = if e.message = "" then ExitCode.explain e.exitCode else e.message

theorem explained_eq (text : String) (code : Int32) :
    explained text code = if text = "" then ExitCode.explain code else text := by
  unfold explained
  simp only [String.isEmpty_iff]

theorem records_ofEnd (e : ContainerEnd) : Records e (ofEnd e) where
  startedAt := rfl
  finishedAt := rfl
  exitCode := rfl
  reason := explained_eq _ _
  message := explained_eq _ _

theorem explained_ne_empty (text : String) (code : Int32) :
    (if text = "" then ExitCode.explain code else text) ≠ "" := by
  by_cases h : text = ""
  · rw [if_pos h]
    exact (ExitCode.says_explain code).ne_empty
  · rw [if_neg h]
    exact h

/-- The ends are those of the containers that ended abnormally, one for each and in their order. -/
theorem Ends.records {statuses : List ContainerStatus} {ends : List Termination}
    (h : Ends statuses ends) :
    List.Forall₂ (fun s t => ∃ e, s.lastState = some (some e) ∧ Records e t)
      (statuses.filter fun s => s.EndedAbnormally) ends := by
  induction h with
  | nil => exact .nil
  | @none s rest ends never others ih =>
    have hnot : ¬s.EndedAbnormally := by
      rintro ⟨e, he, -⟩
      rw [Option.mem_def, ← ContainerStatus.lastEnd, never] at he
      simp at he
    rwa [List.filter_cons_of_neg (by simpa using hnot)]
  | @completed s rest ends e ended reason others ih =>
    have hnot : ¬s.EndedAbnormally := by
      rintro ⟨e', he', hreason⟩
      rw [Option.mem_def, ← ContainerStatus.lastEnd, ended] at he'
      obtain rfl := Option.some.inj he'
      exact hreason reason
    rwa [List.filter_cons_of_neg (by simpa using hnot)]
  | @abnormal s rest ends e ended reason others ih =>
    have habnormal : s.EndedAbnormally := ⟨e, ended, reason⟩
    rw [List.filter_cons_of_pos (by simpa using habnormal)]
    exact .cons ⟨e, Option.join_eq_some_iff.1 ended, records_ofEnd e⟩ ih

/-- The abnormal ends are complete and always explained.  There is one record for each container
whose last state is an end with another reason than having completed, in the order of the
containers; it keeps the exit code, the times, and a reason and a message that were reported.  No
reason and no message is empty, and an explanation tells the exit code that it stands for. -/
theorem diagnosis_complete (statuses : List ContainerStatus) :
    List.Forall₂ (fun s t => ∃ e, s.lastState = some (some e) ∧ Records e t)
      (statuses.filter fun s => s.EndedAbnormally) (ofStatuses statuses) ∧
    (∀ t ∈ ofStatuses statuses, t.reason ≠ "" ∧ t.message ≠ "") ∧
    Function.Injective ExitCode.explain := by
  refine ⟨(ends_ofStatuses statuses).records, ?_, ExitCode.explain_injective⟩
  intro t ht
  unfold ofStatuses at ht
  obtain ⟨e, -, rfl⟩ := List.mem_map.1 ht
  rw [(records_ofEnd e).reason, (records_ofEnd e).message]
  exact ⟨explained_ne_empty _ _, explained_ne_empty _ _⟩

end Termination

end Workplane
