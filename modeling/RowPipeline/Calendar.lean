import RowPipeline.Text.CharClass
import RowPipeline.Decimal

/-!
# Dates in text

A date is written as year, month and day with hyphens, each part possibly after blanks; or as an
internet timestamp with a time of day and an offset.
-/

namespace RowPipeline.Calendar

def isLeapYear (year : Int) : Bool :=
  year % 4 == 0 && (year % 100 != 0 || year % 400 == 0)

def daysInMonth (year : Int) (month : Nat) : Nat :=
  match month with
  | 2 => if isLeapYear year then 29 else 28
  | 4 | 6 | 9 | 11 => 30
  | _ => 31

/-- The years the calendar covers. -/
def yearInRange (year : Int) : Bool := -262143 ≤ year && year ≤ 262142

def isDate (year : Int) (month day : Nat) : Bool :=
  yearInRange year && 1 ≤ month && month ≤ 12 && 1 ≤ day && day ≤ daysInMonth year month

/-- At least one and at most `most` digits at the start. -/
def takeDigits? (most : Nat) (cs : List Char) : Option (Nat × List Char) :=
  let digits := (cs.take most).takeWhile Text.isAsciiDigit
  if digits.isEmpty then none else some (Decimal.digitsValue digits, cs.drop digits.length)

/-- A year: up to four digits, or after a sign any number of them. -/
def takeYear? (cs : List Char) : Option (Int × List Char) :=
  match cs with
  | '-' :: rest => (takeDigits? rest.length rest).map fun p => (-(p.1 : Int), p.2)
  | '+' :: rest => (takeDigits? rest.length rest).map fun p => ((p.1 : Int), p.2)
  | cs => (takeDigits? 4 cs).map fun p => ((p.1 : Int), p.2)

/-- What follows a fixed character. -/
def after? (c : Char) : List Char → Option (List Char)
  | d :: rest => if d = c then some rest else none
  | [] => none

/-- A date on the calendar, written with hyphens. -/
def isDateText (s : String) : Bool :=
  let result : Option Bool := do
    let (year, cs) ← takeYear? (s.toList.dropWhile Text.isBlank)
    let cs ← after? '-' cs
    let (month, cs) ← takeDigits? 2 (cs.dropWhile Text.isBlank)
    let cs ← after? '-' cs
    let (day, cs) ← takeDigits? 2 (cs.dropWhile Text.isBlank)
    return cs.isEmpty && isDate year month day
  result.getD false

/-- Exactly `count` digits at the start. -/
def exactDigits? (count : Nat) (cs : List Char) : Option (Nat × List Char) :=
  let digits := cs.take count
  if digits.length == count && digits.all Text.isAsciiDigit then
    some (Decimal.digitsValue digits, cs.drop count)
  else none

/-- An offset from universal time, less than a day. -/
def isOffset (cs : List Char) : Bool :=
  match cs with
  | [c] => c == 'Z' || c == 'z'
  | sign :: rest =>
      (sign == '+' || sign == '-' || sign == '\u2212') &&
        (do
          let (hours, cs) ← exactDigits? 2 rest
          let cs ← after? ':' cs
          let (minutes, cs) ← exactDigits? 2 cs
          return cs.isEmpty && hours < 24 && minutes < 60 : Option Bool).getD false
  | [] => false

/-- The rest of a timestamp after its seconds: an optional fraction, then the offset. -/
def isFractionAndOffset (cs : List Char) : Bool :=
  match cs with
  | '.' :: rest =>
      !(rest.takeWhile Text.isAsciiDigit).isEmpty && isOffset (rest.dropWhile Text.isAsciiDigit)
  | cs => isOffset cs

/-- A date and a time of day with an offset. A minute can have a leap second. -/
def isTimestampText (s : String) : Bool :=
  let result : Option Bool := do
    let (year, cs) ← exactDigits? 4 s.toList
    let cs ← after? '-' cs
    let (month, cs) ← exactDigits? 2 cs
    let cs ← after? '-' cs
    let (day, cs) ← exactDigits? 2 cs
    let cs ← match cs with
      | c :: rest => if c == 'T' || c == 't' || c == ' ' then some rest else none
      | [] => none
    let (hour, cs) ← exactDigits? 2 cs
    let cs ← after? ':' cs
    let (minute, cs) ← exactDigits? 2 cs
    let cs ← after? ':' cs
    let (second, cs) ← exactDigits? 2 cs
    return isDate year month day && hour < 24 && minute < 60 && second ≤ 60 &&
      isFractionAndOffset cs
  result.getD false

end RowPipeline.Calendar
