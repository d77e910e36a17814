/-!
# White space

The characters with the Unicode property White_Space, and trimming by them.
-/

namespace Workplane.Text

/-- A character with the Unicode property White_Space. -/
def isBlank (c : Char) : Bool :=
  let n := c.toNat
  (0x09 ≤ n && n ≤ 0x0d) || n == 0x20 || n == 0x85 || n == 0xa0 || n == 0x1680 ||
    (0x2000 ≤ n && n ≤ 0x200a) || n == 0x2028 || n == 0x2029 || n == 0x202f || n == 0x205f ||
    n == 0x3000

/-- Drops the white space at the front. -/
def trimStart (s : List Char) : List Char :=
  s.dropWhile isBlank

/-- Drops the white space at both ends. -/
def trim (s : List Char) : List Char :=
  ((trimStart s).reverse.dropWhile isBlank).reverse

end Workplane.Text
