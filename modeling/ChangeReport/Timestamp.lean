import ChangeReport.Text.Blank
import ChangeReport.Text.Split

/-! Points in time, as dates and times of day in UTC. They are read from text with an
offset and written in the profile of ISO 8601 that the web uses. -/
namespace ChangeReport

/-- A point in time. In a leap second `second` is 60. -/
structure Timestamp where
  year : Int
  month : Nat
  day : Nat
  hour : Nat
  minute : Nat
  second : Nat
  nanosecond : Nat
deriving DecidableEq, Repr

namespace Timestamp

def isLeapYear (y : Int) : Bool := y % 4 == 0 && (y % 100 != 0 || y % 400 == 0)

def daysInMonth (y : Int) (m : Nat) : Nat :=
  if m = 2 then if isLeapYear y then 29 else 28
  else if m = 4 ∨ m = 6 ∨ m = 9 ∨ m = 11 then 30
  else 31

def leastYear : Int := -262143

def greatestYear : Int := 262142

def inRange (t : Timestamp) : Bool := leastYear ≤ t.year && t.year ≤ greatestYear

def nextDay (t : Timestamp) : Timestamp :=
  if t.day < daysInMonth t.year t.month then { t with day := t.day + 1 }
  else if t.month < 12 then { t with month := t.month + 1, day := 1 }
  else { t with year := t.year + 1, month := 1, day := 1 }

def previousDay (t : Timestamp) : Timestamp :=
  if 1 < t.day then { t with day := t.day - 1 }
  else if 1 < t.month then { t with month := t.month - 1, day := daysInMonth t.year (t.month - 1) }
  else { t with year := t.year - 1, month := 12, day := 31 }

def dayLength : Int := 24 * 60

/-- A local time with the minutes that it is ahead of UTC, as a time in UTC. -/
def toUtc (t : Timestamp) (ahead : Int) : Timestamp :=
  let minutes : Int := (t.hour * 60 + t.minute : Nat) - ahead
  let ofMinutes (t : Timestamp) (m : Int) : Timestamp := { t with hour := m.toNat / 60, minute := m.toNat % 60 }
  if minutes < 0 then ofMinutes t.previousDay (minutes + dayLength)
  else if dayLength ≤ minutes then ofMinutes t.nextDay (minutes - dayLength)
  else ofMinutes t minutes

def digitsValue (cs : List Char) : Nat := cs.foldl (fun n c => n * 10 + (c.toNat - '0'.toNat)) 0

/-- A number of at least one and at most `width` digits. Blanks before it are passed over.
-/
def number? (width : Nat) (cs : List Char) : Option (Nat × List Char) :=
  let digits := (cs.takeWhile Char.isDigit).take width
  if digits.isEmpty then none else some (digitsValue digits, cs.drop digits.length)

def field? (width : Nat) (cs : List Char) : Option (Nat × List Char) := number? width (Text.trimStartChars cs)

/-- A year has four digits at most, unless it has a sign. -/
def year? (cs : List Char) : Option (Int × List Char) :=
  let signed (rest : List Char) := number? rest.length rest
  match Text.trimStartChars cs with
  | '-' :: rest => (signed rest).map fun r => (-(r.1 : Int), r.2)
  | '+' :: rest => (signed rest).map fun r => ((r.1 : Int), r.2)
  | rest => (number? 4 rest).map fun r => ((r.1 : Int), r.2)

def mark? (m : Char) (cs : List Char) : Option (List Char) :=
  match Text.trimStartChars cs with
  | c :: rest => if c = m then some rest else none
  | [] => none

/-- The digits of a fraction of a second; those after the ninth are dropped. -/
def fraction? : List Char → Option (Nat × List Char)
  | '.' :: rest =>
      let digits := rest.takeWhile Char.isDigit
      if digits.isEmpty then none
      else
        let kept := digits.take 9
        some (digitsValue kept * Nat.pow 10 (9 - kept.length), rest.drop digits.length)
  | cs => some (0, cs)

def twoDigits? : List Char → Option (Nat × List Char)
  | a :: b :: rest => if a.isDigit && b.isDigit then some (digitsValue [a, b], rest) else none
  | _ => none

/-- Hours and minutes of an offset; colons and blanks may stand between them. -/
def offsetSize? (cs : List Char) : Option (Nat × List Char) := do
  let (hours, rest) ← twoDigits? cs
  let (minutes, rest) ← twoDigits? (rest.dropWhile fun c => c == ':' || Text.isBlank c)
  guard (minutes < 60 ∧ hours < 24)
  return (hours * 60 + minutes, rest)

def lower (c : Char) : Char := c.toLower

/-- The minutes that a time is ahead of UTC. -/
def offset? (cs : List Char) : Option (Int × List Char) :=
  if (cs.take 3).map lower = ['u', 't', 'c'] then some (0, cs.drop 3)
  else match cs with
    | 'Z' :: rest => some (0, rest)
    | 'z' :: rest => some (0, rest)
    | '+' :: rest => (offsetSize? rest).map fun r => ((r.1 : Int), r.2)
    | '-' :: rest => (offsetSize? rest).map fun r => (-(r.1 : Int), r.2)
    | '\u2212' :: rest => (offsetSize? rest).map fun r => (-(r.1 : Int), r.2)
    | _ => none

/-- Reads a date, a time and an offset. A second may be the 60th; blanks are allowed
before every part. -/
def parse? (s : String) : Option Timestamp := do
  let (year, rest) ← year? s.toList
  let (month, rest) ← field? 2 (← mark? '-' rest)
  let (day, rest) ← field? 2 (← mark? '-' rest)
  let rest ← match rest with
    | c :: rest => if c = 'T' ∨ c = 't' ∨ c = ' ' then some rest else none
    | [] => none
  let (hour, rest) ← field? 2 rest
  let (minute, rest) ← field? 2 (← mark? ':' rest)
  let (second, rest) ← field? 2 (← mark? ':' rest)
  let (nanosecond, rest) ← fraction? rest
  let (ahead, rest) ← offset? (Text.trimStartChars rest)
  let t : Timestamp := ⟨year, month, day, hour, minute, second, nanosecond⟩
  let utc := t.toUtc ahead
  guard (rest.all Text.isBlank ∧ 1 ≤ month ∧ month ≤ 12 ∧ 1 ≤ day ∧ day ≤ daysInMonth year month ∧
    hour < 24 ∧ minute < 60 ∧ second ≤ 60 ∧ t.inRange ∧ utc.inRange)
  return utc

def padded (width n : Nat) : String :=
  let digits := toString n
  String.ofList (List.replicate (width - digits.length) '0') ++ digits

/-- Years outside of four digits have a sign. -/
def renderYear (y : Int) : String :=
  if 0 ≤ y ∧ y ≤ 9999 then padded 4 y.toNat
  else (if y < 0 then "-" else "+") ++ padded 4 y.natAbs

def renderDate (t : Timestamp) : String := renderYear t.year ++ "-" ++ padded 2 t.month ++ "-" ++ padded 2 t.day

def renderMinute (t : Timestamp) : String := padded 2 t.hour ++ ":" ++ padded 2 t.minute

/-- As many of three, six or nine digits as are exact. -/
def renderFraction (n : Nat) : String :=
  if n = 0 then ""
  else if n % 1000000 = 0 then "." ++ padded 3 (n / 1000000)
  else if n % 1000 = 0 then "." ++ padded 6 (n / 1000)
  else "." ++ padded 9 n

def render (t : Timestamp) : String :=
  renderDate t ++ "T" ++ renderMinute t ++ ":" ++ padded 2 t.second ++ renderFraction t.nanosecond ++ "Z"

end Timestamp
end ChangeReport
