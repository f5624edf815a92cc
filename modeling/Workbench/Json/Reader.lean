/-
# Reading JSON

Reads a value from a text. What is wrong with a text is a `Cause`, and `Located`
adds where: the line, and the bytes of that line up to and including the
offending one.

The reader works on what is left of the text. It has one argument more than it
needs for that: whether the value is wanted, or is read past. A value that is
read past may be nested to any depth, its numbers may have any size, and its
surrogates need not be paired.

* `Reader.value` — a value and what follows it.
* `Value.parse` — the value that a whole text is.
-/

import Workbench.Json.Value
import Workbench.Text.Clip
import Workbench.Text.Octets

namespace Workbench.Json

open Workbench.Text

/-- What is wrong with a text that should be JSON, or with the value it holds. -/
inductive Cause where
  | endInValue
  | endInList
  | endInObject
  | endInString
  | expectedColon
  | expectedListEnd
  | expectedObjectEnd
  | expectedIdent
  | expectedValue
  | invalidEscape
  | invalidNumber
  | numberOutOfRange
  | controlCharacter
  | keyMustBeString
  | loneSurrogate
  | trailingComma
  | trailingCharacters
  | endOfEscape
  | tooDeep
  | data (message : String)
  deriving DecidableEq, Repr

/-- The wording of a cause. -/
def Cause.message : Cause → String
  | endInValue => "EOF while parsing a value"
  | endInList => "EOF while parsing a list"
  | endInObject => "EOF while parsing an object"
  | endInString => "EOF while parsing a string"
  | expectedColon => "expected \x60:\x60"
  | expectedListEnd => "expected \x60,\x60 or \x60]\x60"
  | expectedObjectEnd => "expected \x60,\x60 or \x60\x7d\x60"
  | expectedIdent => "expected ident"
  | expectedValue => "expected value"
  | invalidEscape => "invalid escape"
  | invalidNumber => "invalid number"
  | numberOutOfRange => "number out of range"
  | controlCharacter => "control character (\\u0000-\\u001F) found while parsing a string"
  | keyMustBeString => "key must be a string"
  | loneSurrogate => "lone leading surrogate in hex escape"
  | trailingComma => "trailing comma"
  | trailingCharacters => "trailing characters"
  | endOfEscape => "unexpected end of hex escape"
  | tooDeep => "recursion limit exceeded"
  | data message => message

/-- Where reading stopped: the cause, what was left of the text, and whether the
first byte of that is the offending one (rather than the last byte before it). -/
structure Stop where
  cause : Cause
  rest : List Char
  peeked : Bool

/-- A cause with its line and column, both counted from 1 as far as the text has bytes. -/
structure Located where
  cause : Cause
  line : Nat
  column : Nat
  deriving DecidableEq, Repr

/-- The wording of a located cause. -/
def Located.message (l : Located) : String :=
  l.cause.message ++ " at line " ++ toString l.line ++ " column " ++ toString l.column

/-- The line that a text ends in, and the bytes of it. -/
def position (s : List Char) : Nat × Nat :=
  s.foldl (fun (line, column) c =>
    if c = '\n' then (line + 1, 0) else (line, column + c.utf8Size)) (1, 0)

/-- Finds the line and column of a stop in the text that was read. -/
def Stop.locate (text : List Char) (stop : Stop) : Located :=
  let (line, column) := position (text.take (text.length - stop.rest.length))
  match stop.peeked, stop.rest with
  | true, '\n' :: _ => ⟨stop.cause, line + 1, 0⟩
  | true, _ :: _ => ⟨stop.cause, line, column + 1⟩
  | _, _ => ⟨stop.cause, line, column⟩

namespace Reader

/-- Stops after the characters read so far. -/
def after {α : Type} (cause : Cause) (rest : List Char) : Except Stop α :=
  .error ⟨cause, rest, false⟩

/-- Stops at the next character. -/
def before {α : Type} (cause : Cause) (rest : List Char) : Except Stop α :=
  .error ⟨cause, rest, true⟩

/-- The blanks of JSON. -/
def isBlank (c : Char) : Bool :=
  c == ' ' || c == '\n' || c == '\t' || c == '\r'

/-- What is left after blanks. -/
def skipBlanks (s : List Char) : List Char :=
  s.dropWhile isBlank

/-- Reads the rest of a word such as `null`. -/
def word : List Char → List Char → Except Stop (List Char)
  | [], rest => .ok rest
  | _ :: _, [] => after .endInValue []
  | w :: ws, c :: rest => if c = w then word ws rest else after .expectedIdent rest

/-! ### Strings -/

/-- The value of four hexadecimal digits. -/
def fourDigits? (a b c d : Char) : Option Nat := do
  let a ← Octets.hexValue? a
  let b ← Octets.hexValue? b
  let c ← Octets.hexValue? c
  let d ← Octets.hexValue? d
  return ((a * 16 + b) * 16 + c) * 16 + d

/-- Reads four hexadecimal digits. A digit that is none is found only once four
bytes are there. -/
def hexEscape : List Char → Except Stop (Nat × List Char)
  | a :: b :: c :: d :: rest =>
      match fourDigits? a b c d with
      | some n => .ok (n, rest)
      | none => after .invalidEscape rest
  | _ => after .endInString []

/-- Reads what follows `\u`. -/
def unicodeEscape (wanted : Bool) (s : List Char) : Except Stop (Char × List Char) := do
  let (n, rest) ← hexEscape s
  if !wanted then return ('?', rest)
  if 0xDC00 ≤ n && n ≤ 0xDFFF then after .loneSurrogate rest
  else if n < 0xD800 || 0xDBFF < n then return (Char.ofNat n, rest)
  else match rest with
    | [] => after .endInString []
    | '\\' :: [] => after .endInString []
    | '\\' :: 'u' :: more =>
        let (n2, rest) ← hexEscape more
        if n2 < 0xDC00 || 0xDFFF < n2 then after .loneSurrogate rest
        else return (Char.ofNat ((n - 0xD800) * 1024 + (n2 - 0xDC00) + 0x10000), rest)
    | '\\' :: _ :: more => after .endOfEscape more
    | _ :: more => after .endOfEscape more

/-- Reads what follows a backslash. -/
def escape (wanted : Bool) : List Char → Except Stop (Char × List Char)
  | [] => after .endInString []
  | 'u' :: rest => unicodeEscape wanted rest
  | '"' :: rest => .ok ('"', rest)
  | '\\' :: rest => .ok ('\\', rest)
  | '/' :: rest => .ok ('/', rest)
  | 'b' :: rest => .ok ('\x08', rest)
  | 'f' :: rest => .ok ('\x0c', rest)
  | 'n' :: rest => .ok ('\n', rest)
  | 'r' :: rest => .ok ('\r', rest)
  | 't' :: rest => .ok ('\t', rest)
  | _ :: rest => after .invalidEscape rest

/-- Reads the rest of a string; `read` holds the characters before it, last first. -/
def stringFrom (wanted : Bool) :
    Nat → List Char → List Char → Except Stop (List Char × List Char)
  | _, _, [] => after .endInString []
  | 0, _, rest => after .endInString rest
  | fuel + 1, read, c :: rest =>
      if c = '"' then .ok (read.reverse, rest)
      else if c = '\\' then do
        let (d, rest) ← escape wanted rest
        stringFrom wanted fuel (d :: read) rest
      else if c.toNat < 32 then after .controlCharacter rest
      else stringFrom wanted fuel (c :: read) rest

/-- Reads a string after its opening quote. -/
def string (wanted : Bool) (s : List Char) : Except Stop (String × List Char) := do
  let (cs, rest) ← stringFrom wanted (s.length + 1) [] s
  return (String.ofList cs, rest)

/-! ### Numbers -/

/-- The largest unsigned word. -/
def wordMax : Nat := Nat.pow 2 64 - 1

/-- The value of a decimal digit. -/
def digit? (c : Char) : Option Nat :=
  if '0' ≤ c ∧ c ≤ '9' then some (c.toNat - '0'.toNat) else none

/-- The double nearest to a power of ten. -/
def power (e : Nat) : Float :=
  Float.ofScientific 1 false e

/-- The double nearest to a word, times ten to a power: multiplied or divided by
the power as a double, in steps of 1e308. None when it is too large. -/
def scaled? (significand : Nat) (exponent : Int) : Option Float :=
  let x := significand.toUInt64.toFloat
  if exponent < 0 then
    let e := exponent.natAbs
    some <|
      if e ≤ 308 then x / power e
      else if significand = 0 then x
      else if e ≤ 616 then x / power 308 / power (e - 308)
      else if e ≤ 924 then x / power 308 / power 308 / power (e - 616)
      else 0.0
  else
    let e := exponent.toNat
    if e ≤ 308 then
      let y := x * power e
      if y.isInf then none else some y
    else if significand = 0 then some x
    else none

/-- The double of a sign, a significand and a power of ten. -/
def double (negative : Bool) (significand : Nat) (exponent : Int) (rest : List Char) :
    Except Stop (Number × List Char) :=
  match scaled? significand exponent with
  | some x => .ok (.double (if negative then -x else x), rest)
  | none => after .numberOutOfRange rest

/-- Reads the digits of an exponent beyond its first. Once it passes 2^31 - 1 only
the sign of the exponent matters. -/
def exponentDigits (wanted negative : Bool) (significand : Nat) (start : Int) (minus : Bool)
    (e : Nat) :
    List Char → Except Stop (Number × List Char)
  | [] => finish e []
  | c :: rest =>
      match digit? c with
      | none => finish e (c :: rest)
      | some d =>
          if 10 * e + d ≤ 2147483647 then
            exponentDigits wanted negative significand start minus (10 * e + d) rest
          else if significand ≠ 0 && !minus && wanted then after .numberOutOfRange rest
          else .ok (.double (if negative then -0.0 else 0.0), rest.dropWhile (digit? · |>.isSome))
where
  /-- The number with the exponent read. -/
  finish (e : Nat) (rest : List Char) : Except Stop (Number × List Char) :=
    if wanted then double negative significand (if minus then start - e else start + e) rest
    else .ok (.double 0.0, rest)

/-- Reads an exponent after its `e`. -/
def exponent (wanted negative : Bool) (significand : Nat) (start : Int) (s : List Char) :
    Except Stop (Number × List Char) :=
  let (minus, s) := match s with
    | '+' :: rest => (false, rest)
    | '-' :: rest => (true, rest)
    | _ => (false, s)
  match s with
  | [] => after .endInValue []
  | c :: rest =>
      match digit? c with
      | some d => exponentDigits wanted negative significand start minus d rest
      | none => after .invalidNumber rest

/-- The number, or its exponent if one follows. -/
def mantissaEnd (wanted negative : Bool) (significand : Nat) (e : Int) :
    List Char → Except Stop (Number × List Char)
  | 'e' :: rest => exponent wanted negative significand e rest
  | 'E' :: rest => exponent wanted negative significand e rest
  | rest => if wanted then double negative significand e rest else .ok (.double 0.0, rest)

/-- Reads the digits after a point. Digits that no longer fit a word are dropped. -/
def decimals (wanted negative : Bool) (significand : Nat) (before count : Nat) :
    List Char → Except Stop (Number × List Char)
  | [] =>
      if count = 0 then Reader.before .endInValue []
      else mantissaEnd wanted negative significand ((before : Int) - count) []
  | c :: rest =>
      match digit? c with
      | some d =>
          if significand * 10 + d ≤ wordMax then
            decimals wanted negative (significand * 10 + d) before (count + 1) rest
          else
            mantissaEnd wanted negative significand ((before : Int) - count)
              (rest.dropWhile (digit? · |>.isSome))
      | none =>
          if count = 0 then Reader.before .invalidNumber (c :: rest)
          else mantissaEnd wanted negative significand ((before : Int) - count) (c :: rest)

/-- Reads on in a whole number that no longer fits a word: every further digit is
a power of ten. -/
def longInteger (wanted negative : Bool) (significand : Nat) (e : Nat) :
    List Char → Except Stop (Number × List Char)
  | '.' :: rest => decimals wanted negative significand e 0 rest
  | c :: rest =>
      match digit? c with
      | some _ => longInteger wanted negative significand (e + 1) rest
      | none => mantissaEnd wanted negative significand e (c :: rest)
  | [] => mantissaEnd wanted negative significand e []

/-- The whole number read, unless a point or an exponent follows. A negative one
that no signed word holds, and negative zero, are doubles. -/
def integerEnd (wanted negative : Bool) (significand : Nat) :
    List Char → Except Stop (Number × List Char)
  | '.' :: rest => decimals wanted negative significand 0 0 rest
  | 'e' :: rest => exponent wanted negative significand 0 rest
  | 'E' :: rest => exponent wanted negative significand 0 rest
  | rest =>
      if !negative then .ok (.whole significand, rest)
      else if significand = 0 || Nat.pow 2 63 < significand then
        .ok (.double (-(significand.toUInt64.toFloat)), rest)
      else .ok (.whole (-(significand : Int)), rest)

/-- Reads the digits of a whole number beyond its first. -/
def integerDigits (wanted negative : Bool) (significand : Nat) :
    List Char → Except Stop (Number × List Char)
  | [] => integerEnd wanted negative significand []
  | c :: rest =>
      match digit? c with
      | some d =>
          if significand * 10 + d ≤ wordMax then
            integerDigits wanted negative (significand * 10 + d) rest
          else longInteger wanted negative significand 0 (c :: rest)
      | none => integerEnd wanted negative significand (c :: rest)

/-- Reads a number after its sign. -/
def number (wanted negative : Bool) :
    List Char → Except Stop (Number × List Char)
  | [] => after .endInValue []
  | '0' :: rest =>
      match rest with
      | c :: _ =>
          if (digit? c).isSome then before .invalidNumber rest
          else integerEnd wanted negative 0 rest
      | [] => integerEnd wanted negative 0 []
  | c :: rest =>
      match digit? c with
      | some d => integerDigits wanted negative d rest
      | none => after .invalidNumber rest

/-! ### Values -/

/-- How deep a wanted value may be nested. -/
def depthLimit : Nat := 128

/-- What is expected in front of the next item of a list: whether there is one, and
what is left. -/
def nextItem (wanted first : Bool) (s : List Char) : Except Stop (Bool × List Char) :=
  match skipBlanks s with
  | [] => before .endInList []
  | ']' :: rest => .ok (false, ']' :: rest)
  | c :: rest =>
      if first then .ok (true, c :: rest)
      else if c = ',' then
        match skipBlanks rest with
        | [] => before .endInValue []
        | ']' :: more =>
            before (if wanted then .trailingComma else .expectedValue) (']' :: more)
        | more => .ok (true, more)
      else before .expectedListEnd (c :: rest)

/-- What is expected in front of the next field of an object: whether there is one,
and what is left after the quote that opens its name. -/
def nextField (wanted first : Bool) (s : List Char) : Except Stop (Bool × List Char) :=
  match skipBlanks s with
  | [] => before .endInObject []
  | '\x7d' :: rest => .ok (false, '\x7d' :: rest)
  | c :: rest =>
      if first then
        if c = '"' then .ok (true, rest) else before .keyMustBeString (c :: rest)
      else if c = ',' then
        match skipBlanks rest with
        | [] => before (if wanted then .endInValue else .endInObject) []
        | '"' :: more => .ok (true, more)
        | '\x7d' :: more =>
            before (if wanted then .trailingComma else .keyMustBeString) ('\x7d' :: more)
        | more => before .keyMustBeString more
      else before .expectedObjectEnd (c :: rest)

/-- Reads the colon between a name and its value. -/
def colon (s : List Char) : Except Stop (List Char) :=
  match skipBlanks s with
  | [] => before .endInObject []
  | ':' :: rest => .ok rest
  | rest => before .expectedColon rest

mutual

/-- Reads a value; `depth` is how deep it may still be nested. -/
def value (wanted : Bool) : Nat → Nat → List Char → Except Stop (Value × List Char)
  | 0, _, rest => before .endInValue rest
  | fuel + 1, depth, s =>
      match skipBlanks s with
      | [] => before .endInValue []
      | 'n' :: rest => do return (.null, ← word ['u', 'l', 'l'] rest)
      | 't' :: rest => do return (.bool true, ← word ['r', 'u', 'e'] rest)
      | 'f' :: rest => do return (.bool false, ← word ['a', 'l', 's', 'e'] rest)
      | '-' :: rest => do
          let (n, rest) ← number wanted true rest
          return (.number n, rest)
      | '"' :: rest => do
          let (s, rest) ← string wanted rest
          return (.string s, rest)
      | '[' :: rest => do
          if wanted && depth ≤ 1 then before .tooDeep ('[' :: rest)
          let (items, rest) ← items wanted true fuel (depth - 1) rest
          return (.array items, rest)
      | '\x7b' :: rest => do
          if wanted && depth ≤ 1 then before .tooDeep ('\x7b' :: rest)
          let (fields, rest) ← fields wanted true fuel (depth - 1) [] rest
          return (.object fields, rest)
      | c :: rest =>
          if (digit? c).isSome then do
            let (n, rest) ← number wanted false (c :: rest)
            return (.number n, rest)
          else before .expectedValue (c :: rest)

/-- Reads the items of a list up to and including its closing bracket. -/
def items (wanted first : Bool) : Nat → Nat → List Char → Except Stop (List Value × List Char)
  | 0, _, rest => before .endInList rest
  | fuel + 1, depth, s => do
      let (more, rest) ← nextItem wanted first s
      if more then
        let (item, rest) ← value wanted fuel depth rest
        let (others, rest) ← items wanted false fuel depth rest
        return (item :: others, rest)
      else return ([], rest.drop 1)

/-- Reads the fields of an object up to and including its closing brace; `known`
holds the fields before them. -/
def fields (wanted first : Bool) :
    Nat → Nat → List (String × Value) → List Char → Except Stop (List (String × Value) × List Char)
  | 0, _, _, rest => before .endInObject rest
  | fuel + 1, depth, known, s => do
      let (more, rest) ← nextField wanted first s
      if more then
        let (name, rest) ← string wanted rest
        let rest ← colon rest
        let (item, rest) ← value wanted fuel depth rest
        fields wanted false fuel depth (Value.insert name item known) rest
      else return (known, rest.drop 1)

end

/-- Nothing but blanks is left. -/
def finish (s : List Char) : Except Stop Unit :=
  match skipBlanks s with
  | [] => .ok ()
  | rest => before .trailingCharacters rest

/-- Steps that suffice for a text. -/
def fuelFor (s : List Char) : Nat :=
  2 * s.length + 2

/-- Reads a whole text with a reader of one value. -/
def whole {α : Type} (read : List Char → Except Stop (α × List Char)) (text : String) :
    Except Located α :=
  let s := text.toList
  match (do let (x, rest) ← read s; finish rest; return x : Except Stop α) with
  | .ok x => .ok x
  | .error stop => .error (stop.locate s)

end Reader

/-- The value that a text is. -/
def Value.parse (text : String) : Except Located Value :=
  Reader.whole (fun s => Reader.value true (Reader.fuelFor s) Reader.depthLimit s) text

end Workbench.Json
