/-!
# Lists sorted by name

Values under names, in the order of the names and without a name twice.
-/

namespace Workplane.Sorted

/-- Puts a value in the place of its name, over one of the same name. -/
def insert (name : String) (value : α) : List (String × α) → List (String × α)
  | [] => [(name, value)]
  | (n, v) :: rest =>
    if name < n then (name, value) :: (n, v) :: rest
    else if name = n then (name, value) :: rest
    else (n, v) :: insert name value rest

theorem mem_insert {name : String} {value : α} {m : String × α} {members : List (String × α)}
    (h : m ∈ insert name value members) : m = (name, value) ∨ m ∈ members := by
  fun_induction insert name value members with
  | case1 => simpa using h
  | case2 => simpa using h
  | case3 v rest =>
    rcases List.mem_cons.1 h with h | h
    · exact .inl h
    · exact .inr (.tail _ h)
  | case4 n v rest _ _ ih =>
    rcases List.mem_cons.1 h with h | h
    · exact .inr (h ▸ .head rest)
    · exact (ih h).imp_right (.tail _)

theorem pairwise_insert (name : String) (value : α) {members : List (String × α)}
    (h : members.Pairwise (·.1 < ·.1)) : (insert name value members).Pairwise (·.1 < ·.1) := by
  fun_induction insert name value members with
  | case1 => exact List.pairwise_singleton _ _
  | case2 n v rest hlt =>
    refine List.pairwise_cons.2 ⟨fun m hm => ?_, h⟩
    rcases List.mem_cons.1 hm with rfl | hm
    · exact hlt
    · exact String.lt_trans hlt ((List.pairwise_cons.1 h).1 m hm)
  | case3 v rest => exact List.pairwise_cons.2 (List.pairwise_cons.1 h)
  | case4 n v rest hlt hne ih =>
    have h := List.pairwise_cons.1 h
    refine List.pairwise_cons.2 ⟨fun m hm => ?_, ih h.2⟩
    rcases mem_insert hm with rfl | hm
    · rcases Decidable.em (n < name) with hn | hn
      · exact hn
      · exact absurd (String.le_antisymm hn hlt) hne
    · exact h.1 m hm

/-- Values sorted by name, the last of equal names kept. -/
def ofList (members : List (String × α)) : List (String × α) :=
  members.foldl (fun sorted m => insert m.1 m.2 sorted) []

theorem pairwise_ofList (members : List (String × α)) :
    (ofList members).Pairwise (·.1 < ·.1) := by
  have pairwise_foldl (sorted : List (String × α)) (h : sorted.Pairwise (·.1 < ·.1)) :
      (members.foldl (fun sorted m => insert m.1 m.2 sorted) sorted).Pairwise (·.1 < ·.1) := by
    induction members generalizing sorted with
    | nil => exact h
    | cons m rest ih => exact ih _ (pairwise_insert m.1 m.2 h)
  exact pairwise_foldl [] .nil

end Workplane.Sorted
