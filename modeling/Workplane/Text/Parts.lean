/-!
# Parts of a text

A text cut at every occurrence of a character.
-/

namespace Workplane.Text

/-- The parts of a text between the occurrences of a character; there is always at least one. -/
def parts (separator : Char) : List Char → List (List Char)
  | [] => [[]]
  | c :: rest =>
    if c = separator then [] :: parts separator rest
    else match parts separator rest with
    | first :: others => (c :: first) :: others
    | [] => [[c]]

theorem parts_ne_nil (separator : Char) (s : List Char) : parts separator s ≠ [] := by
  fun_cases parts separator s <;> simp

end Workplane.Text
