import Workplane.Decimal.Layout
import Workplane.Json.Basic
import Workplane.Text.Hex

/-!
# The written form of a document

Documents are written without blanks, members in their order.  Text escapes only the quote, the
backslash and the control characters.  A number without a JSON form is written `null`.
-/

namespace Workplane.Json

/-- A character inside quotes. -/
def escapeChar (c : Char) : List Char :=
  if c = '"' then ['\\', '"']
  else if c = '\\' then ['\\', '\\']
  else if c = '\x08' then ['\\', 'b']
  else if c = '\x0c' then ['\\', 'f']
  else if c = '\n' then ['\\', 'n']
  else if c = '\r' then ['\\', 'r']
  else if c = '\t' then ['\\', 't']
  else if c.toNat < 0x20 then
    ['\\', 'u', '0', '0', Hex.digit (c.toNat / 16), Hex.digit (c.toNat % 16)]
  else [c]

/-- A text in quotes. -/
def quoted (s : String) : List Char :=
  '"' :: (s.toList.flatMap escapeChar ++ ['"'])

/-- An integer. -/
def intChars (n : Int) : List Char :=
  match n with
  | .ofNat n => Nat.toDigits 10 n
  | .negSucc n => '-' :: Nat.toDigits 10 (n + 1)

/-- A number; infinities and NaN are `null`. -/
def numberChars : Number → List Char
  | .int n => intChars n
  | .float x =>
    if x.isNaN || x.isInf then ['n', 'u', 'l', 'l'] else Decimal.Layout.stored.finite x

mutual

/-- The written form of a document. -/
def chars : Json → List Char
  | .null | .unreadable => ['n', 'u', 'l', 'l']
  | .bool true => ['t', 'r', 'u', 'e']
  | .bool false => ['f', 'a', 'l', 's', 'e']
  | .number n => numberChars n
  | .string s => quoted s
  | .array items => '[' :: (itemChars items ++ [']'])
  | .object members => '{' :: (memberChars members ++ ['}'])

/-- The items of an array, separated by commas. -/
def itemChars : List Json → List Char
  | [] => []
  | [item] => chars item
  | item :: rest => chars item ++ ',' :: itemChars rest

/-- The members of an object, separated by commas. -/
def memberChars : List (String × Json) → List Char
  | [] => []
  | [(name, value)] => quoted name ++ ':' :: chars value
  | (name, value) :: rest => quoted name ++ ':' :: (chars value ++ ',' :: memberChars rest)

end

/-- The written form of a document as text. -/
def text (j : Json) : String :=
  String.ofList j.chars

/-- The written form of a document as bytes. -/
def bytes (j : Json) : ByteArray :=
  j.text.toUTF8

end Workplane.Json
