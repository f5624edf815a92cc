/-
# Scalars of TOML

Readers for the values of TOML 1.0 that hold no others: strings of the four
kinds, whole numbers, floats, dates and times. Each takes what is left of the
text and gives the value and what follows it, or nothing when there is no such
value there. A value is handed on as JSON: a whole number is one, a date is an
object that no setting can be read from.
-/

import Workbench.Json.Value
import Workbench.Text.Octets

namespace Workbench.Toml

open Workbench.Text Workbench.Json

/-- A blank within a line. -/
def isBlank (c : Char) : Bool :=
  c == ' ' || c == '\t'

/-- What is left after blanks. -/
def skipBlanks (s : List Char) : List Char :=
  s.dropWhile isBlank

/-- What is left after the end of a line. -/
def newline? : List Char → Option (List Char)
  | '\n' :: rest => some rest
  | '\r' :: '\n' :: rest => some rest
  | _ => none

/-- A character that a comment or a literal string may hold. -/
def isPlain (c : Char) : Bool :=
  c == '\t' || (32 ≤ c.toNat && c.toNat ≠ 127)

/-- What is left after blanks and a comment, if there is one. -/
def skipComment? (s : List Char) : Option (List Char) :=
  match skipBlanks s with
  | '#' :: rest =>
      match rest.dropWhile isPlain with
      | [] => some []
      | after => if (newline? after).isSome then some after else none
  | rest => some rest

/-- What is left after the end of a line with nothing but blanks and a comment
before it. -/
def lineEnd? (s : List Char) : Option (List Char) := do
  match ← skipComment? s with
  | [] => some []
  | rest => newline? rest

/-- What is left after blanks, comments and line ends. -/
def skipLines : Nat → List Char → List Char
  | 0, s => s
  | fuel + 1, s =>
      match skipComment? s with
      | none => s
      | some rest =>
          match newline? rest with
          | some more => skipLines fuel more
          | none => rest

/-! ### Strings -/

/-- The character of a code given by hexadecimal digits. -/
def codePoint? (digits : List Char) : Option Char := do
  let n ← digits.foldlM (fun n d => (Octets.hexValue? d).map (16 * n + ·)) 0
  if n < 0xD800 ∨ (0xDFFF < n ∧ n < 0x110000) then some (Char.ofNat n) else none

/-- Reads what follows a backslash. -/
def escape? : List Char → Option (Char × List Char)
  | 'b' :: rest => some ('\x08', rest)
  | 't' :: rest => some ('\t', rest)
  | 'n' :: rest => some ('\n', rest)
  | 'f' :: rest => some ('\x0c', rest)
  | 'r' :: rest => some ('\r', rest)
  | '"' :: rest => some ('"', rest)
  | '\\' :: rest => some ('\\', rest)
  | 'u' :: rest =>
      if (rest.take 4).length = 4 then (codePoint? (rest.take 4)).map (·, rest.drop 4) else none
  | 'U' :: rest =>
      if (rest.take 8).length = 8 then (codePoint? (rest.take 8)).map (·, rest.drop 8) else none
  | _ => none

/-- Reads on in a string in double quotes; `read` holds what is read, last first. -/
def basic? : Nat → List Char → List Char → Option (List Char × List Char)
  | 0, _, _ => none
  | _, _, [] => none
  | fuel + 1, read, c :: rest =>
      if c = '"' then some (read.reverse, rest)
      else if c = '\\' then do
        let (d, rest) ← escape? rest
        basic? fuel (d :: read) rest
      else if isPlain c then basic? fuel (c :: read) rest
      else none

/-- Reads a string in single quotes after its opening. -/
def literal? (s : List Char) : Option (List Char × List Char) :=
  let body := s.takeWhile fun c => c ≠ '\'' && isPlain c
  match s.drop body.length with
  | '\'' :: rest => some (body, rest)
  | _ => none

/-- What is left after a first line end. -/
def trimNewline (s : List Char) : List Char :=
  (newline? s).getD s

/-- What is left after a backslash at the end of a line and the blanks and line
ends that follow it. -/
def continuation? (s : List Char) : Option (List Char) :=
  (newline? (skipBlanks s)).map fun rest => rest.dropWhile fun c =>
    isBlank c || c == '\n' || c == '\r'

/-- Reads on in a string of several lines that ends with three quotes. Of more
quotes in a row, up to two belong to the string. -/
def longString? (quote : Char) (escapes : Bool) :
    Nat → List Char → List Char → Option (List Char × List Char)
  | 0, _, _ => none
  | _, _, [] => none
  | fuel + 1, read, c :: rest =>
      if c = quote then
        let run := 1 + (rest.takeWhile (· == quote)).length
        if run < 3 then longString? quote escapes fuel (List.replicate run quote ++ read)
          (rest.drop (run - 1))
        else
          let inside := min (run - 3) 2
          some ((List.replicate inside quote ++ read).reverse, rest.drop (inside + 2))
      else if escapes ∧ c = '\\' then
        match continuation? rest with
        | some more => longString? quote escapes fuel read more
        | none => do
            let (d, rest) ← escape? rest
            longString? quote escapes fuel (d :: read) rest
      else
        match newline? (c :: rest) with
        | some more => longString? quote escapes fuel ('\n' :: read) more
        | none => if isPlain c then longString? quote escapes fuel (c :: read) rest else none

/-- Reads a string of any kind. -/
def string? (s : List Char) : Option (String × List Char) :=
  let read := match s with
    | '"' :: '"' :: '"' :: rest => longString? '"' true (s.length + 1) [] (trimNewline rest)
    | '\'' :: '\'' :: '\'' :: rest => longString? '\'' false (s.length + 1) [] (trimNewline rest)
    | '"' :: rest => basic? (s.length + 1) [] rest
    | '\'' :: rest => literal? rest
    | _ => none
  read.map fun (cs, rest) => (String.ofList cs, rest)

/-! ### Numbers -/

/-- A decimal digit. -/
def isDigit (c : Char) : Bool :=
  '0' ≤ c && c ≤ '9'

/-- Reads digits on, with single underscores between them. -/
def moreDigits (isDigit : Char → Bool) : List Char → Option (List Char × List Char)
  | '_' :: c :: rest =>
      if isDigit c then (moreDigits isDigit rest).map fun (ds, r) => (c :: ds, r) else none
  | c :: rest =>
      if isDigit c then (moreDigits isDigit rest).map fun (ds, r) => (c :: ds, r)
      else if c = '_' then none
      else some ([], c :: rest)
  | [] => some ([], [])

/-- Reads one digit or more. -/
def digits? (isDigit : Char → Bool) : List Char → Option (List Char × List Char)
  | c :: rest =>
      if isDigit c then (moreDigits isDigit rest).map fun (ds, r) => (c :: ds, r) else none
  | [] => none

/-- The value of digits of a base. -/
def valueOf (base : Nat) (digits : List Char) : Nat :=
  digits.foldl (fun n d => base * n + (Octets.hexValue? d).getD 0) 0

/-- Reads a sign. -/
def sign (s : List Char) : Bool × List Char :=
  match s with
  | '+' :: rest => (false, rest)
  | '-' :: rest => (true, rest)
  | _ => (false, s)

/-- Reads the digits of a decimal whole number: no zero stands in front. -/
def decimal? : List Char → Option (List Char × List Char)
  | '0' :: rest => some (['0'], rest)
  | s => digits? isDigit s

/-- A whole number that a signed word holds. -/
def whole? (n : Int) : Option Value :=
  if -(Nat.pow 2 63) ≤ n ∧ n < Nat.pow 2 63 then some (.number (.whole n)) else none

/-- Reads a whole number of any base. -/
def integer? (s : List Char) : Option (Value × List Char) := do
  let based (base : Nat) (isDigit : Char → Bool) (rest : List Char) : Option (Value × List Char) := do
    let (ds, rest) ← digits? isDigit rest
    return (← whole? (valueOf base ds), rest)
  match s with
  | '0' :: 'x' :: rest => based 16 (fun c => (Octets.hexValue? c).isSome) rest
  | '0' :: 'o' :: rest => based 8 (fun c => '0' ≤ c && c ≤ '7') rest
  | '0' :: 'b' :: rest => based 2 (fun c => c == '0' || c == '1') rest
  | _ =>
      let (minus, rest) := sign s
      let (ds, rest) ← decimal? rest
      let n : Int := valueOf 10 ds
      return (← whole? (if minus then -n else n), rest)

/-- Reads an exponent. -/
def exponent? : List Char → Option (Int × List Char)
  | c :: rest =>
      if c = 'e' ∨ c = 'E' then do
        let (minus, rest) := sign rest
        let (ds, rest) ← digits? isDigit rest
        let n : Int := valueOf 10 ds
        return (if minus then -n else n, rest)
      else none
  | [] => none

/-- The float of digits and a power of ten; none if it is not finite. -/
def finite? (digits : List Char) (exponent : Int) : Option Value :=
  let n := valueOf 10 digits
  if n = 0 ∨ exponent + digits.length < -400 then some (.number (.double 0.0))
  else if 400 < exponent then none
  else
    let x := if exponent < 0 then Float.ofScientific n true exponent.natAbs
      else Float.ofScientific n false exponent.natAbs
    if x.isInf then none else some (.number (.double x))

/-- Reads a float: a whole number with a fraction, an exponent or both, or a name. -/
def float? (s : List Char) : Option (Value × List Char) := do
  let (_, rest) := sign s
  match rest with
  | 'i' :: 'n' :: 'f' :: rest => return (.number (.double 0.0), rest)
  | 'n' :: 'a' :: 'n' :: rest => return (.number (.double 0.0), rest)
  | _ =>
      let (whole, rest) ← decimal? rest
      match rest with
      | '.' :: rest =>
          let (fraction, rest) ← digits? isDigit rest
          match exponent? rest with
          | some (e, rest) => return (← finite? (whole ++ fraction) (e - fraction.length), rest)
          | none => return (← finite? (whole ++ fraction) (-fraction.length), rest)
      | _ =>
          let (e, rest) ← exponent? rest
          return (← finite? whole e, rest)

/-! ### Dates and times -/

/-- Reads a number of exactly so many digits. -/
def fixed? (count : Nat) (s : List Char) : Option (Nat × List Char) :=
  let ds := s.take count
  if ds.length = count ∧ ds.all isDigit then some (valueOf 10 ds, s.drop count) else none

/-- What is left after a given character. -/
def mark? (c : Char) : List Char → Option (List Char)
  | d :: rest => if c = d then some rest else none
  | [] => none

/-- The days of a month. -/
def daysIn (year month : Nat) : Nat :=
  if month = 2 then
    if year % 4 = 0 ∧ (year % 100 ≠ 0 ∨ year % 400 = 0) then 29 else 28
  else if month = 4 ∨ month = 6 ∨ month = 9 ∨ month = 11 then 30 else 31

/-- What is left after a date. -/
def date? (s : List Char) : Option (List Char) := do
  let (year, s) ← fixed? 4 s
  let (month, s) ← fixed? 2 (← mark? '-' s)
  let (day, s) ← fixed? 2 (← mark? '-' s)
  if 1 ≤ month ∧ month ≤ 12 ∧ 1 ≤ day ∧ day ≤ daysIn year month then some s else none

/-- What is left after a time. -/
def time? (s : List Char) : Option (List Char) := do
  let (hour, s) ← fixed? 2 s
  let (minute, s) ← fixed? 2 (← mark? ':' s)
  let (second, s) ← fixed? 2 (← mark? ':' s)
  if hour ≤ 23 ∧ minute ≤ 59 ∧ second ≤ 60 then
    match s with
    | '.' :: rest =>
        match rest.takeWhile isDigit with
        | [] => some s
        | ds => some (rest.drop ds.length)
    | _ => some s
  else none

/-- What is left after an offset, if there is one. -/
def offset (s : List Char) : List Char :=
  match s with
  | 'Z' :: rest => rest
  | 'z' :: rest => rest
  | c :: rest =>
      if c = '+' ∨ c = '-' then
        let after := do
          let (hour, s) ← fixed? 2 rest
          let (minute, s) ← fixed? 2 (← mark? ':' s)
          if hour ≤ 23 ∧ minute ≤ 59 then some s else none
        after.getD s
      else s
  | [] => []

/-- What is left after a date, a time, or both. -/
def moment? (s : List Char) : Option (List Char) :=
  match date? s with
  | none => time? s
  | some rest =>
      match rest with
      | c :: more =>
          if c = 'T' ∨ c = 't' ∨ c = ' ' then
            match time? more with
            | some after => some (offset after)
            | none => some rest
          else some rest
      | [] => some rest

/-- The value of a date or time: an object that holds none of the settings. -/
def momentValue : Value :=
  .object [("moment", .string "")]

/-- Reads a number, a date or a time. -/
def number? (s : List Char) : Option (Value × List Char) :=
  match moment? s with
  | some rest => some (momentValue, rest)
  | none =>
      match float? s with
      | some found => some found
      | none => integer? s

end Workbench.Toml
