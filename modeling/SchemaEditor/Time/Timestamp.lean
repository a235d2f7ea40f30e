import SchemaEditor.Text.Blank
import SchemaEditor.Text.Decimal

/-!
# Timestamps

A moment of civil time in UTC, down to the nanosecond; a leap second counts as second 60. Moments
are read from a relaxed form of RFC 3339 with any offset and written in the strict form.
-/

namespace SchemaEditor

/-- A moment in UTC. -/
structure Timestamp where
  year : Int
  month : Nat
  day : Nat
  hour : Nat
  minute : Nat
  second : Nat
  nano : Nat
  deriving DecidableEq

namespace Timestamp

/-! ### The calendar -/

/-- Whether a year of the Gregorian calendar has a leap day. -/
def isLeapYear (year : Int) : Bool :=
  year % 4 = 0 && (year % 100 ≠ 0 || year % 400 = 0)

/-- The number of days of a month. -/
def daysOfMonth (year : Int) (month : Nat) : Nat :=
  if month = 2 then (if isLeapYear year then 29 else 28)
  else if month = 4 ∨ month = 6 ∨ month = 9 ∨ month = 11 then 30
  else 31

/-- The years that a moment may lie in. -/
def yearInRange (year : Int) : Bool := -262143 ≤ year && year ≤ 262142

/-- Whether the parts of a moment are in their ranges. -/
def isValid (t : Timestamp) : Bool :=
  yearInRange t.year && (1 ≤ t.month && t.month ≤ 12) &&
    (1 ≤ t.day && t.day ≤ daysOfMonth t.year t.month) && t.hour ≤ 23 && t.minute ≤ 59 &&
    t.second ≤ 60 && t.nano < 1000000000

/-- The same time on the next day. -/
def nextDay (t : Timestamp) : Timestamp :=
  if t.day < daysOfMonth t.year t.month then { t with day := t.day + 1 }
  else if t.month < 12 then { t with month := t.month + 1, day := 1 }
  else { t with year := t.year + 1, month := 1, day := 1 }

/-- The same time on the day before. -/
def previousDay (t : Timestamp) : Timestamp :=
  if 1 < t.day then { t with day := t.day - 1 }
  else if 1 < t.month then
    { t with month := t.month - 1, day := daysOfMonth t.year (t.month - 1) }
  else { t with year := t.year - 1, month := 12, day := 31 }

/-- The minutes of a day. -/
def minutesPerDay : Int := 1440

/-- Moves a moment back by less than a day. -/
def minusMinutes (t : Timestamp) (minutes : Int) : Timestamp :=
  let total : Int := t.hour * 60 + t.minute - minutes
  let onDay (t : Timestamp) (total : Int) : Timestamp :=
    { t with hour := (total / 60).toNat, minute := (total % 60).toNat }
  if total < 0 then onDay t.previousDay (total + minutesPerDay)
  else if minutesPerDay ≤ total then onDay t.nextDay (total - minutesPerDay)
  else onDay t total

/-! ### Reading -/

/-- Drops the blanks at the beginning. -/
def skipBlanks (cs : List Char) : List Char := cs.dropWhile Text.isBlank

/-- A number of at most `width` digits, after blanks, and what follows it. -/
def number? (width : Nat) (cs : List Char) : Option (Nat × List Char) :=
  let cs := skipBlanks cs
  match (cs.take width).takeWhile Char.isDigit with
  | [] => none
  | ds => some (Text.Decimal.value ds, cs.drop ds.length)

/-- A year: four digits at most, or any number of digits after a sign. -/
def year? (cs : List Char) : Option (Int × List Char) :=
  match skipBlanks cs with
  | '-' :: cs => if (cs.head?.any Char.isDigit) then
      (number? cs.length cs).map fun (n, rest) => (-(n : Int), rest)
    else none
  | '+' :: cs => if (cs.head?.any Char.isDigit) then
      (number? cs.length cs).map fun (n, rest) => ((n : Int), rest)
    else none
  | cs => (number? 4 cs).map fun (n, rest) => ((n : Int), rest)

/-- One character, after blanks, and what follows it. -/
def mark? (c : Char) (cs : List Char) : Option (List Char) :=
  match skipBlanks cs with
  | d :: rest => if d = c then some rest else none
  | [] => none

/-- A fraction of a second in nanoseconds, or nothing; digits after the ninth are dropped. -/
def fraction? : List Char → Option (Nat × List Char)
  | '.' :: cs =>
    match (cs.takeWhile Char.isDigit).take 9 with
    | [] => none
    | ds => some (Text.Decimal.value ds * Nat.pow 10 (9 - ds.length), cs.dropWhile Char.isDigit)
  | cs => some (0, cs)

/-- The minutes of an offset after its sign. -/
def offsetMinutes? : List Char → Option (Nat × List Char)
  | a :: b :: cs =>
    match cs.dropWhile fun c => c == ':' || Text.isBlank c with
    | c :: d :: rest =>
      if [a, b, c, d].all Char.isDigit ∧ Text.Decimal.value [c, d] < 60 then
        some (Text.Decimal.value [a, b] * 60 + Text.Decimal.value [c, d], rest)
      else none
    | _ => none
  | _ => none

/-- An offset from UTC in minutes, and what follows it. -/
def offset? (cs : List Char) : Option (Int × List Char) :=
  if (cs.take 3).map Char.toUpper = ['U', 'T', 'C'] then some (0, cs.drop 3)
  else
    match cs with
    | 'Z' :: rest | 'z' :: rest => some (0, rest)
    | '+' :: rest => (offsetMinutes? rest).map fun (n, rest) => ((n : Int), rest)
    | '-' :: rest | '−' :: rest => (offsetMinutes? rest).map fun (n, rest) => (-(n : Int), rest)
    | _ => none

/-- Reads a moment. Blanks may stand before each part, and a blank for the `T`. -/
def parse? (s : String) : Option Timestamp := do
  let (year, cs) ← year? s.toList
  let (month, cs) ← number? 2 (← mark? '-' cs)
  let (day, cs) ← number? 2 (← mark? '-' cs)
  let cs ← match cs with
    | 'T' :: cs | 't' :: cs | ' ' :: cs => some cs
    | _ => none
  let (hour, cs) ← number? 2 cs
  let (minute, cs) ← number? 2 (← mark? ':' cs)
  let (second, cs) ← number? 2 (← mark? ':' cs)
  let (nano, cs) ← fraction? cs
  let (offset, cs) ← offset? (skipBlanks cs)
  let t : Timestamp := ⟨year, month, day, hour, minute, second, nano⟩
  if (skipBlanks cs).isEmpty && t.isValid && offset.natAbs < 1440 then
    let utc := t.minusMinutes offset
    if yearInRange utc.year then return utc else none
  else none

/-! ### Writing -/

/-- A year in four digits, or with a sign if it does not have four. -/
def yearText (year : Int) : String :=
  if 0 ≤ year ∧ year ≤ 9999 then Text.Decimal.padded 4 year.toNat
  else (if year < 0 then "-" else "+") ++ Text.Decimal.padded 4 year.natAbs

/-- A fraction in three, six or nine digits, as few as show it; nothing for zero. -/
def fractionText (nano : Nat) : String :=
  if nano = 0 then ""
  else if nano % 1000000 = 0 then "." ++ Text.Decimal.padded 3 (nano / 1000000)
  else if nano % 1000 = 0 then "." ++ Text.Decimal.padded 6 (nano / 1000)
  else "." ++ Text.Decimal.padded 9 nano

/-- A moment without its offset. -/
def localText (t : Timestamp) : String :=
  yearText t.year ++ "-" ++ Text.Decimal.padded 2 t.month ++ "-" ++ Text.Decimal.padded 2 t.day ++
    "T" ++ Text.Decimal.padded 2 t.hour ++ ":" ++ Text.Decimal.padded 2 t.minute ++ ":" ++
    Text.Decimal.padded 2 t.second ++ fractionText t.nano

/-- A moment as it is shown, with a numeric offset. -/
def display (t : Timestamp) : String := t.localText ++ "+00:00"

/-- A moment as it is stored, with `Z` for its offset. -/
def text (t : Timestamp) : String := t.localText ++ "Z"

end Timestamp

end SchemaEditor
