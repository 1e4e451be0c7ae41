import ScriptDeps.Text.Cut
import ScriptDeps.Text.Hex

/-! # Points in time

    A timestamp counts seconds from the start of 1970.  It is written as
    `2024-01-02T03:04:05.678Z`, and read with any offset, with blanks between
    its parts, and with a blank for the `T`.  Dates follow the Gregorian
    calendar without end in both directions. -/

namespace ScriptDeps

/-! ## Section 1: The calendar -/

namespace Calendar

/-- Days from the start of 1970 to the given date; March is the first month
    of a year here, so that the leap day comes last. -/
def dayNumber (year : Int) (month day : Nat) : Int :=
  -- January and February belong to the year that began the March before.
  let y := if month ≤ 2 then year - 1 else year
  let era := y / 400
  let yearOfEra := y % 400
  let monthFromMarch : Int := ((month + 9) % 12 : Nat)
  let dayOfYear := (153 * monthFromMarch + 2) / 5 + (day : Int) - 1
  era * 146097 + (yearOfEra * 365 + yearOfEra / 4 - yearOfEra / 100 + dayOfYear) - 719468

/-- The date of a day number. -/
def dateOf (days : Int) : Int × Nat × Nat :=
  let z := days + 719468
  let era := z / 146097
  let dayOfEra := z % 146097
  let yearOfEra := (dayOfEra - dayOfEra / 1460 + dayOfEra / 36524 - dayOfEra / 146096) / 365
  let dayOfYear := dayOfEra - (365 * yearOfEra + yearOfEra / 4 - yearOfEra / 100)
  let monthFromMarch := (5 * dayOfYear + 2) / 153
  let day := dayOfYear - (153 * monthFromMarch + 2) / 5 + 1
  let month := if monthFromMarch < 10 then monthFromMarch + 3 else monthFromMarch - 9
  let year := yearOfEra + era * 400 + if month ≤ 2 then 1 else 0
  (year, month.toNat, day.toNat)

def isLeap (year : Int) : Bool :=
  year % 4 = 0 && (year % 100 != 0 || year % 400 = 0)

/-- The number of days in a month. -/
def monthLength (year : Int) (month : Nat) : Nat :=
  match month with
  | 2 => if isLeap year then 29 else 28
  | 4 | 6 | 9 | 11 => 30
  | _ => 31

end Calendar

/-! ## Section 2: Timestamps -/

/-- A point in time.  In a leap second `nano` goes on beyond a whole second. -/
structure Timestamp where
  second : Int
  nano   : Nat
deriving DecidableEq, Repr, Inhabited

namespace Timestamp

/-- The timestamp of a number of nanoseconds. -/
def ofNanoseconds (n : Int) : Timestamp := ⟨n / 1000000000, (n % 1000000000).toNat⟩

/-- A number with at least `width` digits. -/
def padded (width n : Nat) : Text :=
  let digits := Decimal.ofNat n
  List.replicate (width - digits.length) '0' ++ digits

/-- A year: four digits, or a sign and at least four digits. -/
def yearText (year : Int) : Text :=
  if 0 ≤ year ∧ year ≤ 9999 then padded 4 year.toNat
  else (if year < 0 then '-' else '+') :: padded 4 year.natAbs

/-- The fraction of a second in the fewest groups of three digits. -/
def fractionText (nano : Nat) : Text :=
  if nano = 0 then []
  else if nano % 1000000 = 0 then '.' :: padded 3 (nano / 1000000)
  else if nano % 1000 = 0 then '.' :: padded 6 (nano / 1000)
  else '.' :: padded 9 nano

/-- Date and time, with `mark` between them. -/
def dateAndTime (mark : Char) (t : Timestamp) : Text :=
  let (year, month, day) := Calendar.dateOf (t.second / 86400)
  let inDay := (t.second % 86400).toNat
  yearText year ++ '-' :: padded 2 month ++ '-' :: padded 2 day ++ mark ::
    padded 2 (inDay / 3600) ++ ':' :: padded 2 (inDay / 60 % 60) ++ ':' ::
    padded 2 (inDay % 60 + t.nano / 1000000000) ++ fractionText (t.nano % 1000000000)

/-- The written form. -/
def text (t : Timestamp) : Text := t.dateAndTime 'T' ++ "Z"

/-- The form for people. -/
def display (t : Timestamp) : Text := t.dateAndTime ' ' ++ " UTC"

/-! ## Section 3: Reading -/

/-- What follows blanks. -/
def dropBlanks (t : Text) : Text := t.dropWhile Text.isBlank

/-- A number of one to `width` digits and what follows it. -/
def digits? (width : Nat) (t : Text) : Option (Nat × Text) :=
  let ds := (t.take width).takeWhile Text.isDigit
  if ds.isEmpty then none else some (Decimal.value ds, t.drop ds.length)

/-- A number after blanks. -/
def number? (width : Nat) (t : Text) : Option (Nat × Text) := digits? width (dropBlanks t)

/-- A year: up to four digits, or any number of them after a sign. -/
def year? (t : Text) : Option (Int × Text) :=
  match dropBlanks t with
  | '-' :: rest => (digits? rest.length rest).map fun (n, r) => (-(n : Int), r)
  | '+' :: rest => (digits? rest.length rest).map fun (n, r) => ((n : Int), r)
  | rest => (digits? 4 rest).map fun (n, r) => ((n : Int), r)

/-- What follows the character `c`, which may have blanks before it. -/
def mark? (c : Char) (t : Text) : Option Text :=
  match dropBlanks t with
  | d :: rest => if d = c then some rest else none
  | [] => none

/-- The nanoseconds of a fraction, if there is one; digits after the ninth do
    not matter. -/
def fraction? : Text → Option (Nat × Text)
  | '.' :: rest =>
      match digits? 9 rest with
      | none => none
      | some (n, after) =>
          let width := rest.length - after.length
          some (n * Nat.pow 10 (9 - width), after.dropWhile Text.isDigit)
  | rest => some (0, rest)

/-- Two digits. -/
def twoDigits? : Text → Option (Nat × Text)
  | a :: b :: rest =>
      if Text.isDigit a && Text.isDigit b then some (Decimal.value [a, b], rest) else none
  | _ => none

/-- Hours and minutes after the sign of an offset, in seconds. -/
def offsetSeconds? (t : Text) : Option (Nat × Text) :=
  match twoDigits? t with
  | none => none
  | some (hours, rest) =>
      match twoDigits? (rest.dropWhile fun c => c = ':' || Text.isBlank c) with
      | none => none
      | some (minutes, rest) =>
          if minutes < 60 then some (hours * 3600 + minutes * 60, rest) else none

/-- An offset from universal time: `Z`, `UTC`, or a sign, hours and minutes. -/
def offset? (t : Text) : Option (Int × Text) :=
  if (t.take 3).map Text.lowerChar = "utc".toList then some (0, t.drop 3)
  else match t with
    | c :: rest =>
        if c = 'Z' || c = 'z' then some (0, rest)
        else if c = '+' then (offsetSeconds? rest).map fun (n, r) => ((n : Int), r)
        else if c = '-' || c = '\u2212' then (offsetSeconds? rest).map fun (n, r) => (-(n : Int), r)
        else none
    | [] => none

/-- The years that have a date. -/
def yearLimit : Nat := 262142

/-- The timestamp of a date and time of day at an offset, if they exist. -/
def ofParts? (year : Int) (month day hour minute second nano : Nat) (offset : Int) :
    Option Timestamp :=
  if year.natAbs ≤ yearLimit ∧ 1 ≤ month ∧ month ≤ 12 ∧ 1 ≤ day ∧
      day ≤ Calendar.monthLength year month ∧ hour < 24 ∧ minute < 60 ∧ second ≤ 60 ∧
      offset.natAbs < 86400 then
    -- Second sixty is second fifty-nine with one more second in `nano`.
    let leap := if second = 60 then 1 else 0
    let inDay : Int := ((hour * 60 + minute) * 60 + (second - leap) : Nat)
    some ⟨Calendar.dayNumber year month day * 86400 + inDay - offset, nano + leap * 1000000000⟩
  else none

/-- Reads a timestamp. -/
def ofText? (t : Text) : Option Timestamp := do
  let (year, t) ← year? t
  let t ← mark? '-' t
  let (month, t) ← number? 2 t
  let t ← mark? '-' t
  let (day, t) ← number? 2 t
  let t ← match t with
    | c :: rest => if c = 'T' || c = 't' || c = ' ' then some rest else none
    | [] => none
  let (hour, t) ← number? 2 t
  let t ← mark? ':' t
  let (minute, t) ← number? 2 t
  let t ← mark? ':' t
  let (second, t) ← number? 2 t
  let (nano, t) ← fraction? t
  let (offset, t) ← offset? (dropBlanks t)
  if t.isEmpty then ofParts? year month day hour minute second nano offset else none

end Timestamp
end ScriptDeps
