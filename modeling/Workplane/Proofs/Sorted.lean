import Workplane.Sorted

/-!
# Laws of sorted lists

Sorting by name keeps a sorted list (`Sorted.ofList_of_pairwise`), adds no values
(`Sorted.mem_of_mem_ofList`), and does not depend on the values (`Sorted.ofList_map`).  In a sorted
list a name stands once: what is found of it is all that there is (`Sorted.filter_eq_toList_find?`).
-/

namespace Workplane.Sorted

theorem insert_map (f : α → β) (name : String) (value : α) (members : List (String × α)) :
    insert name (f value) (members.map fun m => (m.1, f m.2)) =
      (insert name value members).map fun m => (m.1, f m.2) := by
  induction members with
  | nil => rfl
  | cons m rest ih =>
    rw [List.map_cons, insert, insert]
    split
    · rfl
    · split
      · rfl
      · rw [ih, List.map_cons]

theorem ofList_map (f : α → β) (members : List (String × α)) :
    ofList (members.map fun m => (m.1, f m.2)) = (ofList members).map fun m => (m.1, f m.2) := by
  have foldl_map (sorted : List (String × α)) :
      (members.map fun m => (m.1, f m.2)).foldl (fun sorted m => insert m.1 m.2 sorted)
        (sorted.map fun m => (m.1, f m.2)) =
      (members.foldl (fun sorted m => insert m.1 m.2 sorted) sorted).map fun m => (m.1, f m.2) := by
    induction members generalizing sorted with
    | nil => rfl
    | cons m rest ih =>
      show (rest.map fun m => (m.1, f m.2)).foldl _
        (insert m.1 (f m.2) (sorted.map fun m => (m.1, f m.2))) = _
      rw [insert_map, ih, List.foldl_cons]
  exact foldl_map []

theorem insert_append {name : String} {value : α} {members : List (String × α)}
    (h : ∀ m ∈ members, m.1 < name) : insert name value members = members ++ [(name, value)] := by
  induction members with
  | nil => rfl
  | cons m rest ih =>
    have hlt := h m (.head rest)
    rw [insert, if_neg (fun hlt' => String.lt_irrefl _ (String.lt_trans hlt hlt')),
      if_neg (fun heq => String.lt_irrefl _ (heq ▸ hlt)), ih fun m hm => h m (.tail _ hm)]
    rfl

/-- A sorted list stays as it is. -/
theorem ofList_of_pairwise {members : List (String × α)} (h : members.Pairwise (·.1 < ·.1)) :
    ofList members = members := by
  have foldl_append (front : List (String × α)) (h : (front ++ members).Pairwise (·.1 < ·.1)) :
      members.foldl (fun sorted m => insert m.1 m.2 sorted) front = front ++ members := by
    induction members generalizing front with
    | nil => exact (List.append_nil front).symm
    | cons m rest ih =>
      have hbefore : ∀ n ∈ front, n.1 < m.1 := fun n hn =>
        (List.pairwise_append.1 h).2.2 n hn m (.head rest)
      rw [List.foldl_cons, insert_append hbefore, ih (List.Pairwise.of_cons ‹_›) _
        (by rwa [List.append_assoc, List.singleton_append]), List.append_assoc,
        List.singleton_append]
  exact foldl_append [] h

theorem mem_of_mem_ofList {m : String × α} {members : List (String × α)} (h : m ∈ ofList members) :
    m ∈ members := by
  have mem_foldl (members sorted : List (String × α))
      (h : m ∈ members.foldl (fun sorted m => insert m.1 m.2 sorted) sorted) :
      m ∈ sorted ∨ m ∈ members := by
    induction members generalizing sorted with
    | nil => exact Or.inl h
    | cons n rest ih =>
      rcases ih _ h with h | h
      · rcases mem_insert h with rfl | h
        · exact Or.inr (.head rest)
        · exact Or.inl h
      · exact Or.inr (.tail n h)
  exact (mem_foldl members [] h).resolve_left fun h => nomatch h

/-! ### Values of one name -/

section Names

variable {f : α → String} {xs : List α} {x : α}

theorem filter_eq_toList_find? (h : xs.Pairwise (f · < f ·)) (name : String) :
    xs.filter (fun x => f x == name) = (xs.find? fun x => f x == name).toList := by
  induction xs with
  | nil => rfl
  | cons x rest ih =>
    obtain ⟨hfirst, hrest⟩ := List.pairwise_cons.1 h
    rw [List.filter_cons, List.find?_cons]
    by_cases hname : f x = name
    · -- What follows has greater names.
      have hnone : rest.filter (fun y => f y == name) = [] := by
        refine List.filter_eq_nil_iff.2 fun y hy => ?_
        rw [beq_iff_eq, ← hname]
        intro heq
        exact String.lt_irrefl _ (heq ▸ hfirst y hy)
      rw [beq_iff_eq.2 hname, if_pos rfl, hnone]
      rfl
    · rw [beq_eq_false_iff_ne.2 hname, if_neg Bool.false_ne_true]
      exact ih hrest

theorem find?_eq_some_of_mem (h : xs.Pairwise (f · < f ·)) (hx : x ∈ xs) :
    xs.find? (fun y => f y == f x) = some x := by
  have hmem : x ∈ xs.filter fun y => f y == f x :=
    List.mem_filter.2 ⟨hx, beq_self_eq_true (f x)⟩
  rw [filter_eq_toList_find? h] at hmem
  simpa using hmem

theorem filter_eq_singleton (h : xs.Pairwise (f · < f ·)) (hx : x ∈ xs) :
    xs.filter (fun y => f y == f x) = [x] := by
  rw [filter_eq_toList_find? h, find?_eq_some_of_mem h hx]
  rfl

end Names

end Workplane.Sorted
