/-
# Moments

A moment is written with its date, its time of day and its distance from universal
time, as in `2024-05-06T07:08:09+00:00`. Reading one tells why a text is none.

* `Moment.parse` — reads a moment.
* `Moment.text` — writes a moment in universal time, with no more digits of the
  second than it needs, in groups of three.
-/

import Workbench.Text.Clip
import Workbench.Text.Octets

namespace Workbench.Calendar

/-- A moment: the seconds since the start of 1970 in universal time, and the
nanoseconds of that second. In a leap second these go on to two milliards. -/
structure Moment where
  seconds : Int
  nanos : Nat
  deriving DecidableEq, Repr

/-- Why a text is no moment. -/
inductive MomentFault where
  | outOfRange
  | invalid
  | tooShort
  | tooLong
  deriving DecidableEq, Repr

/-- The wording of a fault. -/
def MomentFault.message : MomentFault → String
  | outOfRange => "input is out of range"
  | invalid => "input contains invalid characters"
  | tooShort => "premature end of input"
  | tooLong => "trailing input"

/-! ### Days -/

/-- A year has a 29th of February. -/
def isLeap (year : Int) : Bool :=
  year % 4 == 0 && (year % 100 != 0 || year % 400 == 0)

/-- The days of a month. -/
def daysOfMonth (year : Int) (month : Nat) : Nat :=
  if month = 2 then if isLeap year then 29 else 28
  else if month = 4 ∨ month = 6 ∨ month = 9 ∨ month = 11 then 30
  else 31

/-- The days from the start of 1970 to a day. A year is counted from March on, so that
the extra day is its last. -/
def dayNumber (year : Int) (month day : Nat) : Int :=
  let y := if month ≤ 2 then year - 1 else year
  let era := y.fdiv 400
  let ofEra := y - era * 400
  let ofYear := (153 * (((month + 9) % 12 : Nat) : Int) + 2) / 5 + day - 1
  era * 146097 + (ofEra * 365 + ofEra / 4 - ofEra / 100 + ofYear) - 719468

/-- The year, month and day of a day number. -/
def dateOf (number : Int) : Int × Nat × Nat :=
  let z := number + 719468
  let era := z.fdiv 146097
  let ofEra := z - era * 146097
  let year := (ofEra - ofEra / 1460 + ofEra / 36524 - ofEra / 146096) / 365
  let ofYear := ofEra - (365 * year + year / 4 - year / 100)
  let m := (5 * ofYear + 2) / 153
  let day := ofYear - (153 * m + 2) / 5 + 1
  let month := if m < 10 then m + 3 else m - 9
  (year + era * 400 + (if month ≤ 2 then 1 else 0), month.toNat, day.toNat)

namespace Moment

/-! ### Reading -/

/-- The value of a decimal digit. -/
def digit (c : Char) : Except MomentFault Nat :=
  if '0' ≤ c ∧ c ≤ '9' then .ok (c.toNat - '0'.toNat) else .error .invalid

/-- Reads one of some characters. -/
def mark (marks : List Char) : List Char → Except MomentFault (List Char)
  | [] => .error .tooShort
  | c :: rest => if marks.contains c then .ok rest else .error .invalid

/-- Reads digits, so many of them. -/
def number : Nat → List Char → Except MomentFault (Nat × List Char)
  | 0, s => .ok (0, s)
  | _ + 1, [] => .error .tooShort
  | n + 1, c :: rest => do
      let d ← digit c
      let (value, rest) ← number n rest
      return (d * Nat.pow 10 n + value, rest)

/-- Reads the digits of a fraction of a second, as nanoseconds; those after the ninth
do not count. -/
def fraction (s : List Char) : Except MomentFault (Nat × List Char) :=
  let digits := s.takeWhile Char.isDigit
  match s, digits with
  | [], _ => .error .tooShort
  | _, [] => .error .invalid
  | _, _ =>
      let nine := (digits ++ List.replicate 9 '0').take 9
      .ok (nine.foldl (fun n c => 10 * n + (c.toNat - '0'.toNat)) 0, s.drop digits.length)

/-- Reads the distance from universal time, in seconds. -/
def offset : List Char → Except MomentFault (Int × List Char)
  | [] => .error .tooShort
  | c :: rest =>
      if c = 'Z' ∨ c = 'z' then .ok (0, rest)
      else if c = '+' then amount rest
      else if c = '-' ∨ c = '−' then do
        let (n, rest) ← amount rest
        return (-n, rest)
      else .error .invalid
where
  /-- Reads hours and minutes. -/
  amount (s : List Char) : Except MomentFault (Int × List Char) := do
    if Text.byteLength s < 2 then throw .tooShort
    let (hours, rest) ← number 2 s
    let rest ← mark [':'] rest
    if Text.byteLength rest < 2 then throw .tooShort
    let (minutes, rest) ← number 2 rest
    if 59 < minutes then throw .outOfRange
    return (hours * 3600 + minutes * 60, rest)

/-- Reads a moment. -/
def parse (text : String) : Except MomentFault Moment := do
  if text.utf8ByteSize < 19 then throw .tooShort
  let (year, s) ← number 4 text.toList
  let s ← mark ['-'] s
  let (month, s) ← number 2 s
  let s ← mark ['-'] s
  let (day, s) ← number 2 s
  if month < 1 ∨ 12 < month ∨ day < 1 ∨ daysOfMonth year month < day then throw .outOfRange
  let s ← mark ['t', 'T', ' '] s
  let (hour, s) ← number 2 s
  let s ← mark [':'] s
  let (minute, s) ← number 2 s
  let s ← mark [':'] s
  let (second, s) ← number 2 s
  let (nanos, s) ← match s with
    | '.' :: rest => fraction rest
    | _ => pure (0, s)
  if 23 < hour ∨ 59 < minute ∨ 60 < second then throw .outOfRange
  let (distance, s) ← offset s
  if s ≠ [] then throw .tooLong
  if (23 * 60 + 59) * 60 < distance.natAbs then throw .outOfRange
  let leap := second = 60
  let ofDay : Int := hour * 3600 + minute * 60 + (if leap then 59 else second)
  return ⟨dayNumber year month day * 86400 + ofDay - distance,
    if leap then 1000000000 + nanos else nanos⟩

/-! ### Writing -/

/-- A number with at least so many digits. -/
def padded (width n : Nat) : String :=
  let digits := toString n
  String.ofList (List.replicate (width - digits.length) '0') ++ digits

/-- The digits of the fraction of a second. -/
def fractionText (nanos : Nat) : String :=
  if nanos = 0 then ""
  else if nanos % 1000000 = 0 then "." ++ padded 3 (nanos / 1000000)
  else if nanos % 1000 = 0 then "." ++ padded 6 (nanos / 1000)
  else "." ++ padded 9 nanos

/-- A year, with a sign if it has not four digits. -/
def yearText (year : Int) : String :=
  if 0 ≤ year ∧ year ≤ 9999 then padded 4 year.toNat
  else if year < 0 then "-" ++ padded 4 year.natAbs
  else "+" ++ padded 4 year.natAbs

/-- The moment as a text. -/
def text (m : Moment) : String :=
  let number := m.seconds.fdiv 86400
  let ofDay := (m.seconds - number * 86400).toNat
  let (year, month, day) := dateOf number
  let leap := 1000000000 ≤ m.nanos
  yearText year ++ "-" ++ padded 2 month ++ "-" ++ padded 2 day ++ "T" ++
    padded 2 (ofDay / 3600) ++ ":" ++ padded 2 (ofDay / 60 % 60) ++ ":" ++
    padded 2 (ofDay % 60 + if leap then 1 else 0) ++
    fractionText (m.nanos - if leap then 1000000000 else 0) ++ "+00:00"

end Moment

end Workbench.Calendar
