/-
# Bytes

Byte strings as lists of bytes: their hexadecimal spelling, and their reading as
UTF-8. A strict reading fails on the first ill-formed byte; a lenient one puts a
replacement character for every maximal ill-formed stretch and goes on.

* `Octets.toHex`, `Octets.ofHex?` — lowercase spelling, and either case read back.
* `Octets.ofText`, `Octets.toText?` — the UTF-8 form of a text and its inverse.
* `Octets.lenient` — the lenient reading.
-/

namespace Workbench.Text

/-- A string of bytes. -/
abbrev Octets := List UInt8

namespace Octets

/-- The lowercase hexadecimal digit of a number below 16. -/
def hexDigit (n : Nat) : Char :=
  if n < 10 then Char.ofNat ('0'.toNat + n) else Char.ofNat ('a'.toNat + (n - 10))

/-- Two digits for every byte. -/
def toHex (bytes : Octets) : String :=
  String.ofList (bytes.flatMap fun b => [hexDigit (b.toNat / 16), hexDigit (b.toNat % 16)])

/-- The value of a hexadecimal digit of either case. -/
def hexValue? (c : Char) : Option Nat :=
  if '0' ≤ c ∧ c ≤ '9' then some (c.toNat - '0'.toNat)
  else if 'a' ≤ c ∧ c ≤ 'f' then some (c.toNat - 'a'.toNat + 10)
  else if 'A' ≤ c ∧ c ≤ 'F' then some (c.toNat - 'A'.toNat + 10)
  else none

/-- Reads pairs of digits; an odd number of digits or another character fails. -/
def pairs? : List Char → Option Octets
  | [] => some []
  | [_] => none
  | a :: b :: rest => do
      let high ← hexValue? a
      let low ← hexValue? b
      let bytes ← pairs? rest
      return UInt8.ofNat (16 * high + low) :: bytes

/-- The bytes that a hexadecimal spelling names. -/
def ofHex? (s : String) : Option Octets :=
  pairs? s.toList

/-- The UTF-8 form of a text. -/
def ofText (s : String) : Octets :=
  s.toUTF8.toList

/-- The text of which these bytes are the UTF-8 form. -/
def toText? (bytes : Octets) : Option String :=
  String.fromUTF8? ⟨bytes.toArray⟩

/-- A byte that continues a character. -/
def continues (b : UInt8) : Bool :=
  0x80 ≤ b && b ≤ 0xBF

/-- What stands for bytes that are no UTF-8. -/
def replacement : Char :=
  '\uFFFD'

/-- The six low bits of a continuation byte. -/
def tail (b : UInt8) : Nat :=
  b.toNat % 64

/-- Reads the character that starts with byte `b`, given the bytes after it:
the character, and how many of the bytes after `b` it takes. An ill-formed start
takes the bytes up to the first that cannot continue it. -/
def first (b : UInt8) (rest : Octets) : Char × Nat :=
  if b < 0x80 then (Char.ofNat b.toNat, 0)
  else if 0xC2 ≤ b && b ≤ 0xDF then
    match rest with
    | b1 :: _ =>
        if continues b1 then (Char.ofNat ((b.toNat % 32) * 64 + tail b1), 1) else (replacement, 0)
    | [] => (replacement, 0)
  else if 0xE0 ≤ b && b ≤ 0xEF then
    let low : UInt8 := if b = 0xE0 then 0xA0 else 0x80
    let high : UInt8 := if b = 0xED then 0x9F else 0xBF
    match rest with
    | b1 :: more =>
        if low ≤ b1 && b1 ≤ high then
          match more with
          | b2 :: _ =>
              if continues b2 then
                (Char.ofNat ((b.toNat % 16) * 4096 + tail b1 * 64 + tail b2), 2)
              else (replacement, 1)
          | [] => (replacement, 1)
        else (replacement, 0)
    | [] => (replacement, 0)
  else if 0xF0 ≤ b && b ≤ 0xF4 then
    let low : UInt8 := if b = 0xF0 then 0x90 else 0x80
    let high : UInt8 := if b = 0xF4 then 0x8F else 0xBF
    match rest with
    | b1 :: more =>
        if low ≤ b1 && b1 ≤ high then
          match more with
          | b2 :: others =>
              if continues b2 then
                match others with
                | b3 :: _ =>
                    if continues b3 then
                      (Char.ofNat ((b.toNat % 8) * 262144 + tail b1 * 4096 + tail b2 * 64 + tail b3), 3)
                    else (replacement, 2)
                | [] => (replacement, 2)
              else (replacement, 1)
          | [] => (replacement, 1)
        else (replacement, 0)
    | [] => (replacement, 0)
  else (replacement, 0)

/-- The lenient reading, character by character. -/
def lenientChars : Octets → List Char
  | [] => []
  | b :: rest =>
      let (c, more) := first b rest
      c :: lenientChars (rest.drop more)
termination_by bytes => bytes.length
decreasing_by simp only [List.length_cons, List.length_drop]; omega

/-- The text of some bytes, with a replacement character where they are no UTF-8. -/
def lenient (bytes : Octets) : String :=
  match toText? bytes with
  | some text => text
  | none => String.ofList (lenientChars bytes)

end Octets

end Workbench.Text
