import Workplane.Decimal.Numeral
import Workplane.Json.Reader
import Workplane.Text.Blank

/-!
# Timestamps

A moment in UTC, to the nanosecond, in the proleptic Gregorian calendar.  A leap second is the
last second of its minute with a billion nanoseconds more.

`Timestamp.parse` reads RFC 3339 and a little more: one-digit fields, blanks between the fields,
signed years of any length, `t` or a space before the time, and an offset with or without colon.
`Timestamp.text` writes it with as few of 0, 3, 6 or 9 fraction digits as are exact.
-/

namespace Workplane

-- Powers are core's, whatever is in scope beside this module.
attribute [local instance (high)] instPowNat

/-- A moment in UTC. -/
structure Timestamp where
  year : Int
  month : Nat
  day : Nat
  hour : Nat
  minute : Nat
  second : Nat
  /-- At least a billion in a leap second. -/
  nanosecond : Nat
  deriving DecidableEq, Repr, Inhabited

namespace Timestamp

open Numeral (ofDigits)

/-! ### The calendar -/

/-- A leap year of the Gregorian calendar. -/
def isLeapYear (year : Int) : Bool :=
  year % 4 == 0 && (year % 100 != 0 || year % 400 == 0)

/-- The number of days of a month. -/
def daysInMonth (year : Int) (month : Nat) : Nat :=
  if month = 2 then (if isLeapYear year then 29 else 28)
  else if month = 4 ∨ month = 6 ∨ month = 9 ∨ month = 11 then 30
  else 31

/-- The first and the last year that a timestamp can have. -/
def yearRange : Int × Int := (-262143, 262142)

/-- A date of the calendar within the range of years. -/
def isDate (year : Int) (month day : Nat) : Bool :=
  yearRange.1 ≤ year && year ≤ yearRange.2 && 1 ≤ month && month ≤ 12 && 1 ≤ day &&
    day ≤ daysInMonth year month

/-- The same time on the next day. -/
def nextDay (t : Timestamp) : Timestamp :=
  if t.day < daysInMonth t.year t.month then { t with day := t.day + 1 }
  else if t.month < 12 then { t with month := t.month + 1, day := 1 }
  else { t with year := t.year + 1, month := 1, day := 1 }

/-- The same time on the day before. -/
def previousDay (t : Timestamp) : Timestamp :=
  if 1 < t.day then { t with day := t.day - 1 }
  else if 1 < t.month then
    { t with month := t.month - 1, day := daysInMonth t.year (t.month - 1) }
  else { t with year := t.year - 1, month := 12, day := 31 }

/-- The moment at which a clock `minutes` ahead of UTC shows `t`, for less than a day. -/
def subtractMinutes (t : Timestamp) (minutes : Int) : Timestamp :=
  let total : Int := (t.hour * 60 + t.minute : Nat) - minutes
  -- The offset is less than a day, so the date moves by one day at most.
  let shown (m : Int) : Timestamp := { t with hour := (m / 60).toNat, minute := (m % 60).toNat }
  if total < 0 then (shown (total + 1440)).previousDay
  else if total < 1440 then shown total
  else (shown (total - 1440)).nextDay

/-! ### Order -/

/-- The fields from the most to the least significant. -/
def fields (t : Timestamp) : List Int :=
  [t.year, t.month, t.day, t.hour, t.minute, t.second, t.nanosecond]

/-- `t` is earlier than `u`. -/
def before (t u : Timestamp) : Bool :=
  decide (t.fields < u.fields)

/-- The number of days from the first day of 1970 to the date.  Years are taken to begin in March,
so that a leap day is the last day of its year. -/
def daysSince1970 (t : Timestamp) : Int :=
  let year := if t.month ≤ 2 then t.year - 1 else t.year
  let month := if t.month ≤ 2 then t.month + 9 else t.month - 3
  365 * year + year / 4 - year / 100 + year / 400 + (153 * month + 2) / 5 + t.day - 719469

/-- The number of milliseconds since the beginning of 1970, zero before. -/
def millis (t : Timestamp) : UInt64 :=
  let seconds := ((t.daysSince1970 * 24 + t.hour) * 60 + t.minute) * 60 + t.second
  UInt64.ofNat (seconds * 1000 + t.nanosecond / 1000000).toNat

/-! ### Writing -/

/-- The last `width` decimal digits of `n`, with leading zeros. -/
def padded (width n : Nat) : List Char :=
  let digits := Nat.toDigits 10 n
  List.replicate (width - digits.length) '0' ++ digits

/-- A year: four digits, and a sign outside the years 0 to 9999. -/
def yearChars (year : Int) : List Char :=
  if 0 ≤ year ∧ year ≤ 9999 then padded 4 year.toNat
  else (if year < 0 then '-' else '+') :: padded 4 year.natAbs

/-- The fraction of a second with the fewest of 0, 3, 6 or 9 digits that are exact. -/
def fractionChars (n : Nat) : List Char :=
  if n = 0 then []
  else if n % 1000000 = 0 then '.' :: padded 3 (n / 1000000)
  else if n % 1000 = 0 then '.' :: padded 6 (n / 1000)
  else '.' :: padded 9 n

/-- The written form of a timestamp. -/
def chars (t : Timestamp) : List Char :=
  let (second, nanosecond) :=
    if t.nanosecond < 1000000000 then (t.second, t.nanosecond)
    else (t.second + 1, t.nanosecond - 1000000000)
  yearChars t.year ++ '-' :: padded 2 t.month ++ '-' :: padded 2 t.day ++ 'T' :: padded 2 t.hour ++
    ':' :: padded 2 t.minute ++ ':' :: padded 2 second ++ fractionChars nanosecond ++ ['Z']

/-- The written form of a timestamp as text. -/
def text (t : Timestamp) : String :=
  String.ofList t.chars

/-! ### Reading -/

/-- At most `limit` digits at the front, and what follows them. -/
def takeDigits : Nat → List Char → List Nat × List Char
  | limit + 1, c :: rest =>
    if c.isDigit then
      let (ds, rest) := takeDigits limit rest
      ((c.toNat - 48) :: ds, rest)
    else ([], c :: rest)
  | _, s => ([], s)

/-- A number of one to `limit` digits after any blanks. -/
def number (limit : Nat) (s : List Char) : Option (Nat × List Char) :=
  match takeDigits limit (Text.trimStart s) with
  | ([], _) => none
  | (ds, rest) => some (ofDigits ds, rest)

/-- A year after any blanks: up to four digits, or any number of them after a sign. -/
def yearNumber (s : List Char) : Option (Int × List Char) :=
  let signed (negative : Bool) (rest : List Char) : Option (Int × List Char) :=
    match takeDigits rest.length rest with
    | ([], _) => none
    | (ds, rest) => some (if negative then -(ofDigits ds : Int) else ofDigits ds, rest)
  match Text.trimStart s with
  | '-' :: rest => signed true rest
  | '+' :: rest => signed false rest
  | rest => (number 4 rest).map fun (n, rest) => ((n : Int), rest)

/-- A separator after any blanks. -/
def separator (c : Char) (s : List Char) : Option (List Char) :=
  match Text.trimStart s with
  | d :: rest => if d = c then some rest else none
  | [] => none

/-- The nanoseconds of a fraction, cut to nine digits; zero if there is no point. -/
def fraction : List Char → Option (Nat × List Char)
  | '.' :: rest =>
    match takeDigits 9 rest with
    | ([], _) => none
    | (ds, rest) => some (ofDigits ds * 10 ^ (9 - ds.length), rest.dropWhile Char.isDigit)
  | s => some (0, s)

/-- An offset from UTC in minutes, of less than a day. -/
def offset (s : List Char) : Option (Int × List Char) :=
  let signed (negative : Bool) (rest : List Char) : Option (Int × List Char) :=
    match takeDigits 2 rest with
    | ([h₁, h₂], rest) =>
      match takeDigits 2 (rest.dropWhile fun c => c == ':' || Text.isBlank c) with
      | ([m₁, m₂], rest) =>
        let total := (h₁ * 10 + h₂) * 60 + (m₁ * 10 + m₂)
        if m₁ < 6 ∧ total < 1440 then
          some (if negative then -(total : Int) else total, rest)
        else none
      | _ => none
    | _ => none
  match s with
  | 'Z' :: rest | 'z' :: rest => some (0, rest)
  | '+' :: rest => signed false rest
  | '-' :: rest | '\u2212' :: rest => signed true rest
  | u :: t :: c :: rest =>
    if u.toLower = 'u' ∧ t.toLower = 't' ∧ c.toLower = 'c' then some (0, rest) else none
  | _ => none

/-- The moment shown by a clock with the given offset, if the fields make a date and a time. -/
def ofFields (year : Int) (month day hour minute second nanosecond : Nat) (offset : Int) :
    Option Timestamp :=
  if isDate year month day ∧ hour ≤ 23 ∧ minute ≤ 59 ∧ second ≤ 60 then
    -- A leap second stays the last second of its minute when the offset moves it.
    let t : Timestamp :=
      if second = 60 then ⟨year, month, day, hour, minute, 59, nanosecond + 1000000000⟩
      else ⟨year, month, day, hour, minute, second, nanosecond⟩
    let t := t.subtractMinutes offset
    if isDate t.year t.month t.day then some t else none
  else none

/-- The moment that a text spells. -/
def parse (s : List Char) : Option Timestamp := do
  let (year, s) ← yearNumber s
  let s ← separator '-' s
  let (month, s) ← number 2 s
  let s ← separator '-' s
  let (day, s) ← number 2 s
  let s ← match s with
    | 'T' :: rest | 't' :: rest | ' ' :: rest => some rest
    | _ => none
  let (hour, s) ← number 2 s
  let s ← separator ':' s
  let (minute, s) ← number 2 s
  let s ← separator ':' s
  let (second, s) ← number 2 s
  let (nanosecond, s) ← fraction s
  let (offset, s) ← offset (Text.trimStart s)
  if (Text.trimStart s).isEmpty then ofFields year month day hour minute second nanosecond offset
  else none

/-- A timestamp as a document. -/
def toJson (t : Timestamp) : Json :=
  .string t.text

/-- A timestamp written as text. -/
def reader : Reader Timestamp
  | _, .string s => parse s.toList
  | _, _ => none

end Timestamp

end Workplane
