import Mathlib.Logic.Function.Basic
import Workplane.Proofs.Program.Environment

/-!
# Programs that run at the same time

Programs on a common backend make their moves one at a time, in any order (`Interleaving`).  The
trace of all moves is true of the backend at every point (`Trace.IsTrue`), so the store facts of
single moves carry over to traces: a key that no move of a trace changes keeps its entry
(`Trace.IsTrue.get?_replay`), and one that is changed has moved on from the revisions before
(`Trace.IsTrue.movedOn_replay`).

A program that is correct whatever it has learned so far (`Environment.history`) is correct among
others (`Interleaving.holds`).
-/

namespace Workplane

variable {ι α : Type} {b : Backend}

/-! ### Traces -/

/-- The backend after the moves of a trace. -/
def Backend.replay (b : Backend) (t : Trace ι) : Backend :=
  t.foldl (fun b s => s.2.after b) b

/-- A split of a list at one of its elements is at the last one or before it. -/
theorem split_concat {l u v : List α} {x y : α} (h : l ++ [x] = u ++ y :: v) :
    l = u ∧ x = y ∧ v = [] ∨ ∃ w, v = w ++ [x] ∧ l = u ++ y :: w := by
  rcases List.eq_nil_or_concat v with rfl | ⟨w, z, rfl⟩
  · obtain ⟨rfl, hx⟩ := List.append_inj' h rfl
    exact Or.inl ⟨rfl, (List.cons.inj hx).1, rfl⟩
  · rw [List.concat_eq_append, ← List.cons_append, ← List.append_assoc] at h
    obtain ⟨rfl, hx⟩ := List.append_inj' h rfl
    obtain rfl := (List.cons.inj hx).1
    exact Or.inr ⟨w, List.concat_eq_append, rfl⟩

namespace Trace

/-- Every move is true of the backend at its point. -/
def IsTrue (b : Backend) : Trace ι → Prop
  | [] => True
  | s :: t => s.2.IsTrue b ∧ IsTrue (s.2.after b) t

/-- The number of changes that the moves of a trace make to the store. -/
def changes (t : Trace ι) : Nat :=
  (t.map fun s => s.2.count).sum

/-- A replay may be taken up where a front part has left it. -/
theorem replay_append (u v : Trace ι) : b.replay (u ++ v) = (b.replay u).replay v :=
  List.foldl_append

theorem isTrue_append {u v : Trace ι} :
    IsTrue b (u ++ v) ↔ IsTrue b u ∧ IsTrue (b.replay u) v := by
  induction u generalizing b with
  | nil => exact (and_iff_right trivial).symm
  | cons s u ih =>
    show _ ∧ IsTrue _ (u ++ v) ↔ (_ ∧ IsTrue _ u) ∧ _
    rw [ih, and_assoc]
    rfl

theorem changes_cons (s : ι × Move) (t : Trace ι) : changes (s :: t) = s.2.count + changes t := by
  rw [changes, List.map_cons, List.sum_cons]
  rfl

theorem changes_append (u v : Trace ι) : changes (u ++ v) = changes u + changes v := by
  rw [changes, List.map_append, List.sum_append]
  rfl

/-- A move of a true trace is true of the backend at its point. -/
theorem IsTrue.at {u v : Trace ι} {s : ι × Move} (h : IsTrue b (u ++ s :: v)) :
    s.2.IsTrue (b.replay u) :=
  (isTrue_append.1 h).2.1

/-- A true trace keeps the keys valid. -/
theorem IsTrue.valid_replay {t : Trace ι} (h : IsTrue b t) (hb : b.keys.Valid) :
    (b.replay t).keys.Valid := by
  induction t generalizing b with
  | nil => exact hb
  | cons s t ih => exact ih h.2 (h.1.valid_after hb)

/-- The counter counts at most the changes of a trace. -/
theorem IsTrue.revision_replay_le {t : Trace ι} (h : IsTrue b t) :
    (b.replay t).keys.revision.toNat ≤ b.keys.revision.toNat + changes t := by
  induction t generalizing b with
  | nil => exact Nat.le_refl _
  | cons s t ih =>
    have hs := h.1.revision_after_le
    have ht := ih h.2
    rw [changes_cons]
    show ((s.2.after b).replay t).keys.revision.toNat ≤ _
    omega

/-- A key that no move changes keeps its entry. -/
theorem IsTrue.get?_replay {t : Trace ι} (h : IsTrue b t) {key : String}
    (hno : ∀ s ∈ t, s.2.changes key = false) :
    (b.replay t).keys.get? key = b.keys.get? key := by
  induction t generalizing b with
  | nil => rfl
  | cons s t ih =>
    have hs := h.1.get?_after (hno s (.head t))
    have ht := ih h.2 fun s' hs' => hno s' (.tail s hs')
    exact ht.trans hs

/-- Moves that change no key leave the keys as they are. -/
theorem IsTrue.keys_replay {t : Trace ι} (h : IsTrue b t)
    (hno : ∀ s ∈ t, s.2.verdict ≠ some true) : (b.replay t).keys = b.keys := by
  induction t generalizing b with
  | nil => rfl
  | cons s t ih =>
    have hs := h.1.keys_after (hno s (.head t))
    exact (ih h.2 fun s' hs' => hno s' (.tail s hs')).trans hs

/-- If a trace changes the keys, one of its moves is the first to do so. -/
theorem IsTrue.exists_first_change {t : Trace ι} (h : IsTrue b t)
    (hne : (b.replay t).keys ≠ b.keys) :
    ∃ u s v, t = u ++ s :: v ∧ s.2.verdict = some true ∧
      ∀ s' ∈ u, ∀ key, s'.2.changes key = false := by
  have hchange : (t.find? fun s => decide (s.2.verdict = some true)).isSome = true := by
    rw [List.find?_isSome]
    by_contra hno
    exact hne (h.keys_replay fun s hs hverdict => hno ⟨s, hs, decide_eq_true hverdict⟩)
  obtain ⟨s, hs⟩ := Option.isSome_iff_exists.1 hchange
  obtain ⟨hverdict, u, v, rfl, hu⟩ := List.find?_eq_some_iff_append.1 hs
  refine ⟨u, s, v, rfl, of_decide_eq_true hverdict, fun s' hs' key => Bool.eq_false_iff.2 ?_⟩
  intro hchanges
  obtain ⟨u₁, u₂, rfl⟩ := List.append_of_mem hs'
  have hfirst := hu s' hs'
  rw [decide_eq_true ((isTrue_append.1 h).1.at.verdict_of_changes hchanges)] at hfirst
  exact nomatch hfirst

/-- A key that is there stays there unless a move removes it. -/
theorem IsTrue.isSome_replay {t : Trace ι} (h : IsTrue b t) {key : String}
    (hsome : (b.keys.get? key).isSome = true) (hno : ∀ s ∈ t, s.2.removes key = false) :
    ((b.replay t).keys.get? key).isSome = true := by
  induction t generalizing b with
  | nil => exact hsome
  | cons s t ih =>
    refine ih h.2 ?_ fun s' hs' => hno s' (.tail s hs')
    have hremoves := hno s (.head t)
    cases h.1.effect with
    | quiet _ keys _ => rw [keys]; exact hsome
    | wrote key' _ value _ _ _ keys _ _ =>
      rcases Decidable.em (key' = key) with rfl | hne
      · rw [keys, KeyStore.get?_write_self]
        rfl
      · rw [keys, KeyStore.get?_write_of_ne hne]
        exact hsome
    | removed key' _ _ _ keys removes _ =>
      have hne : key' ≠ key := by
        rintro rfl
        simp [removes] at hremoves
      rw [keys, KeyStore.get?_delete_of_ne hne]
      exact hsome

/-- Below the limit, no trace brings a revision back. -/
theorem IsTrue.movedOn_replay_of_movedOn {t : Trace ι} (h : IsTrue b t)
    (few : b.keys.revision.toNat + changes t < 2 ^ 64 - 1) {key : String} {r : Nat}
    (hmoved : b.keys.MovedOn key r) : (b.replay t).keys.MovedOn key r := by
  induction t generalizing b with
  | nil => exact hmoved
  | cons s t ih =>
    rw [changes_cons] at few
    have hrev := h.1.revision_after_le
    have hcounts : b.keys.Counts := by
      unfold KeyStore.Counts
      omega
    have few' : (s.2.after b).keys.revision.toNat + changes t < 2 ^ 64 - 1 := by omega
    exact ih h.2 few' (h.1.movedOn_after_of_movedOn hcounts hmoved)

/-- A key that is changed moves on from every revision before. -/
theorem IsTrue.movedOn_replay {t : Trace ι} (h : IsTrue b t)
    (few : b.keys.revision.toNat + changes t < 2 ^ 64 - 1) {key : String} {r : Nat}
    (hr : r ≤ b.keys.revision.toNat) (hsome : ∃ s ∈ t, s.2.changes key = true) :
    (b.replay t).keys.MovedOn key r := by
  induction t generalizing b with
  | nil => exact absurd hsome (by simp)
  | cons s t ih =>
    rw [changes_cons] at few
    have hrev := h.1.revision_after_le
    have hle := h.1.le_revision_after
    have hcounts : b.keys.Counts := by
      unfold KeyStore.Counts
      omega
    have few' : (s.2.after b).keys.revision.toNat + changes t < 2 ^ 64 - 1 := by omega
    cases hs : s.2.changes key with
    | true => exact h.2.movedOn_replay_of_movedOn few' (h.1.movedOn_after hcounts hs hr)
    | false =>
      obtain ⟨s', hs', hchange⟩ := hsome
      rcases List.mem_cons.1 hs' with rfl | hs'
      · exact absurd hchange (by rw [hs]; exact Bool.false_ne_true)
      · exact ih h.2 few' (Nat.le_trans hr hle) ⟨s', hs', hchange⟩

/-- A key that shows the revision that it showed before a trace was not changed by the trace. -/
theorem IsTrue.unchanged_of_revisionOf_eq {t : Trace ι} (h : IsTrue b t) (hb : b.keys.Valid)
    (few : b.keys.revision.toNat + changes t < 2 ^ 64 - 1) {key : String} {e : Entry}
    (he : b.keys.get? key = some e) (hrev : (b.replay t).keys.revisionOf key = e.revision) :
    ∀ s ∈ t, s.2.changes key = false := by
  intro s hs
  by_contra hchange
  have hbound := hb e (KeyStore.mem_of_get? he)
  have hmoved := h.movedOn_replay few hbound.2 ⟨s, hs, Bool.not_eq_false _ ▸ hchange⟩
  exact hmoved.revisionOf_ne hbound.1 hrev

/-! ### The part of one program -/

/-- The moves of one program. -/
def own [DecidableEq ι] (t : Trace ι) (i : ι) : List Move :=
  (t.filter fun s => s.1 = i).map (·.2)

section Own

variable [DecidableEq ι]

/-- What a process does in two parts it does one after the other. -/
theorem own_append (u v : Trace ι) (i : ι) : own (u ++ v) i = own u i ++ own v i := by
  rw [own, List.filter_append, List.map_append]
  rfl

theorem own_concat_self (t : Trace ι) (i : ι) (m : Move) :
    own (t ++ [(i, m)]) i = own t i ++ [m] := by
  rw [own_append]
  congr 1
  simp [own]

theorem own_concat_of_ne (t : Trace ι) {i j : ι} (h : i ≠ j) (m : Move) :
    own (t ++ [(i, m)]) j = own t j := by
  rw [own_append]
  simp [own, h]

theorem mem_own {t : Trace ι} {i : ι} {m : Move} : m ∈ own t i ↔ (i, m) ∈ t := by
  simp [own]

/-- A split of the moves of a program at one of them is one of the trace. -/
theorem exists_of_own_eq {t : Trace ι} {i : ι} {m : Move} {xs ys : List Move}
    (h : own t i = xs ++ m :: ys) :
    ∃ u v : Trace ι, t = u ++ (i, m) :: v ∧ own u i = xs ∧ own v i = ys := by
  induction t generalizing xs with
  | nil => exact absurd h (by simp [own])
  | cons s t ih =>
    obtain ⟨j, m'⟩ := s
    rcases Decidable.em (j = i) with rfl | hne
    · have hcons : own ((j, m') :: t) j = m' :: own t j := by simp [own]
      rw [hcons] at h
      cases xs with
      | nil =>
        obtain ⟨rfl, hys⟩ := List.cons.inj h
        exact ⟨[], t, rfl, rfl, hys⟩
      | cons x xs =>
        obtain ⟨rfl, hrest⟩ := List.cons.inj h
        obtain ⟨u, v, rfl, hu, hv⟩ := ih hrest
        exact ⟨(j, m') :: u, v, rfl, by simpa [own] using hu, hv⟩
    · have hcons : own ((j, m') :: t) i = own t i := by simp [own, hne]
      obtain ⟨u, v, rfl, hu, hv⟩ := ih (hcons.symm.trans h)
      exact ⟨(j, m') :: u, v, rfl, by simpa [own, hne] using hu, hv⟩

end Own

end Trace

/-! ### Interleavings -/

section Interleaving

variable [DecidableEq ι]

/-- Programs that started from `start` have made the moves of a trace on a common backend, one
move at a time, and what is left of them. -/
inductive Interleaving (start : ι → Program α) (b : Backend) :
    Trace ι → (ι → Program α) → Prop
  | nil : Interleaving start b [] start
  | snoc {t : Trace ι} {rest : ι → Program α} (run : Interleaving start b t rest) (i : ι)
      (m : Move) (q : Program α) (step : (rest i).Step m q) (true_move : m.IsTrue (b.replay t)) :
      Interleaving start b (t ++ [(i, m)]) (Function.update rest i q)

/-- An interleaving answers as the backend does. -/
theorem Interleaving.isTrue {start rest : ι → Program α} {t : Trace ι}
    (h : Interleaving start b t rest) : t.IsTrue b := by
  induction h with
  | nil => trivial
  | snoc run i m q step true_move ih => exact Trace.isTrue_append.2 ⟨ih, true_move, trivial⟩

/-- A program remembers its own moves, and learns from nothing else. -/
def Environment.history (permits : List Move → Option Call → Prop) : Environment (List Move) where
  permits := permits
  allows past m now := now = past ++ [m]

/-- A program that is correct under a rule is correct under a weaker one. -/
theorem Program.Holds.weaken {permits permits' : List Move → Option Call → Prop}
    {post : α → List Move → Prop} {p : Program α} {past : List Move}
    (h : p.Holds (.history permits) post past)
    (hweaker : ∀ past call, permits past call → permits' past call) :
    p.Holds (.history permits') post past := by
  induction p generalizing past with
  | done a => exact h
  | call c limit next ih => exact ⟨hweaker _ _ h.1, fun reply s hs => ih reply (h.2 reply s hs)⟩
  | clock next ih => exact ⟨hweaker _ _ h.1, fun now s hs => ih now (h.2 now s hs)⟩

variable {permits : ι → List Move → Option Call → Prop} {post : ι → α → List Move → Prop}

/-- Programs that are correct on their own are correct together: what is left of each is correct,
and each move was permitted when it was made. -/
theorem Interleaving.holds {start rest : ι → Program α} {t : Trace ι}
    (h : Interleaving start b t rest)
    (correct : ∀ i, (start i).Holds (.history (permits i)) (post i) []) :
    (∀ i, (rest i).Holds (.history (permits i)) (post i) (t.own i)) ∧
      ∀ u i m v, t = u ++ (i, m) :: v → permits i (Trace.own u i) m.request := by
  induction h with
  | nil =>
    refine ⟨correct, fun u i m v huv => ?_⟩
    exact absurd huv.symm (by simp)
  | @snoc t rest run i m q step true_move ih =>
    refine ⟨fun j => ?_, fun u j m' v huv => ?_⟩
    · rcases Decidable.em (i = j) with rfl | hne
      · rw [Function.update_self, Trace.own_concat_self]
        exact (ih.1 i).step step rfl
      · rw [Function.update_of_ne (Ne.symm hne), Trace.own_concat_of_ne t hne]
        exact ih.1 j
    · rcases split_concat huv with ⟨rfl, hs, rfl⟩ | ⟨w, -, rfl⟩
      · obtain ⟨rfl, rfl⟩ := Prod.mk.inj hs
        exact (ih.1 i).permits step
      · exact ih.2 u j m' w rfl

end Interleaving

end Workplane
