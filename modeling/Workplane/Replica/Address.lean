import Workplane.Text.WordClass

/-!
# Masking of addresses

An address is four groups of one to three digits with points between them, with a word boundary
on both sides.  Since a point is not a digit and a boundary follows the last group, the groups
are the whole runs of digits, and at most one address starts at a position.
-/

namespace Workplane.Address

/-- The digits at the front, and what follows them. -/
def digits (s : List Char) : List Char × List Char :=
  (s.takeWhile Text.isDigit, s.dropWhile Text.isDigit)

/-- No character is lost between the digits and the rest. -/
theorem digits_append (s : List Char) : (digits s).1 ++ (digits s).2 = s :=
  List.takeWhile_append_dropWhile

/-- What follows a run of one to three digits that no digit follows. -/
def group (s : List Char) : Option (List Char) :=
  let (ds, rest) := digits s
  if 1 ≤ ds.length ∧ ds.length ≤ 3 then some rest else none

/-- `count` groups, each with a point after it, and a last group before a word boundary. -/
def groups : Nat → List Char → Option (List Char)
  | 0, s => do
    let rest ← group s
    match rest with
    | c :: _ => if Text.isWordChar c then none else some rest
    | [] => some rest
  | count + 1, s => do
    match ← group s with
    | '.' :: rest => groups count rest
    | _ => none

/-- An address at the front of `s`, where `afterWord` tells whether a word character stands right
before: what follows the address. -/
def match? (afterWord : Bool) (s : List Char) : Option (List Char) :=
  if afterWord then none else groups 3 s

/-- What every address is replaced by. -/
def mask : List Char := ['<', 'i', 'p', '>']

/-- Replaces the addresses of `s` from left to right; `skip` characters belong to an address that
has been replaced already. -/
def maskFrom (afterWord : Bool) : Nat → List Char → List Char
  | _, [] => []
  | skip + 1, c :: rest => maskFrom (Text.isWordChar c) skip rest
  | 0, c :: rest =>
    match match? afterWord (c :: rest) with
    | some after => mask ++ maskFrom (Text.isWordChar c) (rest.length - after.length) rest
    | none => c :: maskFrom (Text.isWordChar c) 0 rest

/-- A text with every address replaced. -/
def maskAll (s : String) : String :=
  String.ofList (maskFrom false 0 s.toList)

end Workplane.Address
