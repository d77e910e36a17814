/-!
# Text as it arrives

A request body or a stored value is a byte array that need not be well-formed UTF-8.  A reader
sees it as a list of symbols: a character, or `none` for a byte that belongs to no character.
A malformed byte never hides the bytes after it, so the structure around it stays readable.
-/

namespace Workplane

/-- One position of a text: a character, or `none` for a byte that is part of no well-formed
character. -/
abbrev Symbol := Option Char

namespace Symbol

/-- The symbols of `b` from byte `i` on. -/
def ofBytesFrom (b : ByteArray) (i : Nat) : List Symbol :=
  if i < b.size then
    match b.utf8DecodeChar? i with
    | some c => some c :: ofBytesFrom b (i + c.utf8Size)
    | none => none :: ofBytesFrom b (i + 1)
  else []
termination_by b.size - i
decreasing_by
  · have := Char.utf8Size_pos c
    omega
  · omega

/-- The symbols of a byte array, read as UTF-8. -/
def ofBytes (b : ByteArray) : List Symbol :=
  ofBytesFrom b 0

/-- The symbols of a text. -/
def ofString (s : String) : List Symbol :=
  s.toList.map some

end Symbol

end Workplane
