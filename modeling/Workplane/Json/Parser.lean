import Workplane.Decimal.Numeral
import Workplane.Json.Basic
import Workplane.Text.Hex
import Workplane.Text.Symbols

/-!
# Reading a document

`Json.parse` accepts the JSON grammar and nothing else: blanks are space, tab, line feed and
carriage return, no text may follow the document, and a control character must be escaped.  What
is well-formed but has no value becomes `Json.unreadable`.  Depth is not limited here.
-/

namespace Workplane.Json

/-- A blank between tokens. -/
def isSpace (c : Char) : Bool :=
  c == ' ' || c == '\n' || c == '\t' || c == '\r'

/-- Drops the blanks at the front. -/
def skipSpace : List Symbol → List Symbol
  | some c :: rest => if isSpace c then skipSpace rest else some c :: rest
  | s => s

/-! ### Text -/

/-- A part of a quoted text: a character, a UTF-16 unit given by its number, or a malformed
byte. -/
inductive Piece where
  | char (c : Char)
  | unit (n : Nat)
  | malformed

/-- The character that a one-letter escape stands for. -/
def unescape (c : Char) : Option Char :=
  if c = '"' ∨ c = '\\' ∨ c = '/' then some c
  else if c = 'b' then some '\x08'
  else if c = 'f' then some '\x0c'
  else if c = 'n' then some '\n'
  else if c = 'r' then some '\r'
  else if c = 't' then some '\t'
  else none

/-- The number written as four hexadecimal digits. -/
def hexUnit (a b c d : Symbol) : Option Nat := do
  let a ← Hex.value? (← a)
  let b ← Hex.value? (← b)
  let c ← Hex.value? (← c)
  let d ← Hex.value? (← d)
  return ((a * 16 + b) * 16 + c) * 16 + d

/-- The pieces up to the closing quote, and what follows it. -/
def pieces : List Symbol → Option (List Piece × List Symbol)
  | [] => none
  | some '"' :: rest => some ([], rest)
  -- Whether a unit stands alone or in a pair is left to `joinPieces`.
  | some '\\' :: some 'u' :: a :: b :: c :: d :: rest => do
    let n ← hexUnit a b c d
    let (ps, rest) ← pieces rest
    return (.unit n :: ps, rest)
  | some '\\' :: some c :: rest => do
    let c ← unescape c
    let (ps, rest) ← pieces rest
    return (.char c :: ps, rest)
  | some c :: rest =>
    if c.toNat < 0x20 ∨ c = '\\' then none
    else do
      let (ps, rest) ← pieces rest
      return (.char c :: ps, rest)
  | none :: rest => do
    let (ps, rest) ← pieces rest
    return (.malformed :: ps, rest)

/-- The first unit of a surrogate pair. -/
def isHighSurrogate (n : Nat) : Bool := 0xd800 ≤ n && n < 0xdc00

/-- The second unit of a surrogate pair. -/
def isLowSurrogate (n : Nat) : Bool := 0xdc00 ≤ n && n < 0xe000

/-- The characters that the pieces spell; `none` if a byte is malformed or a surrogate stands
alone. -/
def joinPieces : List Piece → Option (List Char)
  | [] => some []
  | .char c :: rest => do return c :: (← joinPieces rest)
  | .unit high :: .unit low :: rest =>
    if isHighSurrogate high then
      if isLowSurrogate low then do
        let c := Char.ofNat (0x10000 + (high - 0xd800) * 0x400 + (low - 0xdc00))
        return c :: (← joinPieces rest)
      else none
    else if isLowSurrogate high then none
    else do return Char.ofNat high :: (← joinPieces (.unit low :: rest))
  | .unit n :: rest =>
    if isHighSurrogate n || isLowSurrogate n then none
    else do return Char.ofNat n :: (← joinPieces rest)
  | .malformed :: _ => none

/-- A quoted text after its opening quote: its value, if it has one, and what follows it. -/
def quotedText (s : List Symbol) : Option (Option String × List Symbol) := do
  let (ps, rest) ← pieces s
  return ((joinPieces ps).map String.ofList, rest)

/-! ### Numbers -/

/-- The digits at the front, and what follows them. -/
def takeDigits : List Symbol → List Nat × List Symbol
  | some c :: rest =>
    if c.isDigit then
      let (ds, rest) := takeDigits rest
      ((c.toNat - 48) :: ds, rest)
    else ([], some c :: rest)
  | s => ([], s)

/-- The digits before the point: a zero alone, or any that do not start with a zero. -/
def wholeDigits (s : List Symbol) : Option (List Nat × List Symbol) :=
  match takeDigits s with
  | ([], _) => none
  | (0 :: _ :: _, _) => none
  | (ds, rest) => some (ds, rest)

/-- The point and the digits after it, if there is a point. -/
def fractionDigits : List Symbol → Option (Option (List Nat) × List Symbol)
  | some '.' :: rest =>
    match takeDigits rest with
    | ([], _) => none
    | (ds, rest) => some (some ds, rest)
  | s => some (none, s)

/-- An exponent part after its letter. -/
def exponentDigits (s : List Symbol) : Option (Int × List Symbol) :=
  let (negative, s) := match s with
    | some '+' :: rest => (false, rest)
    | some '-' :: rest => (true, rest)
    | s => (false, s)
  match takeDigits s with
  | ([], _) => none
  | (ds, rest) =>
    let n : Int := Numeral.ofDigits ds
    some (if negative then -n else n, rest)

/-- The exponent part, if there is one. -/
def exponentPart : List Symbol → Option (Option Int × List Symbol)
  | some 'e' :: rest | some 'E' :: rest => do
    let (n, rest) ← exponentDigits rest
    return (some n, rest)
  | s => some (none, s)

/-- A number without its sign. -/
def numeral (negative : Bool) (s : List Symbol) : Option (Numeral × List Symbol) := do
  let (whole, s) ← wholeDigits s
  let (fraction, s) ← fractionDigits s
  let (exponent, s) ← exponentPart s
  return ({ negative, whole, fraction, exponent }, s)

/-- The document that a numeral denotes. -/
def ofNumeral (n : Numeral) : Json :=
  match n.toInt? with
  | some i => .number (.int i)
  | none =>
    match n.toFloat? with
    | some x => .number (.float x)
    | none => .unreadable

/-! ### Documents -/

/-- The object with the given members; `unreadable` if a name has no value. -/
def ofMembers (members : List (Option String × Json)) : Json :=
  match members.mapM fun m => m.1.map fun name => (name, m.2) with
  | some members => .object members
  | none => .unreadable

mutual

/-- A document at the front of a text, and what follows it.  `fuel` bounds the recursion. -/
def value (fuel : Nat) (s : List Symbol) : Option (Json × List Symbol) :=
  match fuel with
  | 0 => none
  | fuel + 1 =>
    match skipSpace s with
    | some 'n' :: some 'u' :: some 'l' :: some 'l' :: rest => some (.null, rest)
    | some 't' :: some 'r' :: some 'u' :: some 'e' :: rest => some (.bool true, rest)
    | some 'f' :: some 'a' :: some 'l' :: some 's' :: some 'e' :: rest => some (.bool false, rest)
    | some '"' :: rest => do
      let (text, rest) ← quotedText rest
      return (text.elim .unreadable .string, rest)
    | some '[' :: rest =>
      match skipSpace rest with
      | some ']' :: rest => some (.array [], rest)
      | rest => do
        let (items, rest) ← items fuel rest
        return (.array items, rest)
    | some '{' :: rest =>
      match skipSpace rest with
      | some '}' :: rest => some (.object [], rest)
      | rest => do
        let (members, rest) ← members fuel rest
        return (ofMembers members, rest)
    | some '-' :: rest => do
      let (n, rest) ← numeral true rest
      return (ofNumeral n, rest)
    | rest => do
      let (n, rest) ← numeral false rest
      return (ofNumeral n, rest)

/-- The items of an array that is not empty, up to its closing bracket. -/
def items (fuel : Nat) (s : List Symbol) : Option (List Json × List Symbol) :=
  match fuel with
  | 0 => none
  | fuel + 1 => do
    let (item, rest) ← value fuel s
    match skipSpace rest with
    | some ',' :: rest => do
      let (more, rest) ← items fuel rest
      return (item :: more, rest)
    | some ']' :: rest => return ([item], rest)
    | _ => none

/-- The members of an object that is not empty, up to its closing brace. -/
def members (fuel : Nat) (s : List Symbol) : Option (List (Option String × Json) × List Symbol) :=
  match fuel with
  | 0 => none
  | fuel + 1 =>
    match skipSpace s with
    | some '"' :: rest => do
      let (name, rest) ← quotedText rest
      match skipSpace rest with
      | some ':' :: rest => do
        let (item, rest) ← value fuel rest
        match skipSpace rest with
        | some ',' :: rest => do
          let (more, rest) ← members fuel rest
          return ((name, item) :: more, rest)
        | some '}' :: rest => return ([(name, item)], rest)
        | _ => none
      | _ => none
    | _ => none

end

/-- The document that a text spells. -/
def parse (s : List Symbol) : Option Json := do
  -- Every second step of the recursion takes a symbol.
  let (j, rest) ← value (2 * s.length + 2) s
  if (skipSpace rest).isEmpty then return j else none

/-- The document that a string spells. -/
def ofText? (s : String) : Option Json :=
  parse (Symbol.ofString s)

/-- The document that bytes spell. -/
def ofBytes? (b : ByteArray) : Option Json :=
  parse (Symbol.ofBytes b)

end Workplane.Json
