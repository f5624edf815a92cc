/-
# Written strings

A text that was written in quotes is read back, whatever characters it has, and so is a
string with blanks in front of it.

* `Reader.stringFrom_flatMap` — escaped characters are read one by one.
* `Reader.string_quote` — **a written string is read back**.
-/

import Mathlib.Tactic.SplitIfs
import Workbench.Json.Writer
import Workbench.Proofs.Json.Reading

namespace Workbench.Json.Reader

open Workbench.Text

variable {fuel depth : Nat} {c : Char} {read cs s t gap : List Char} {text : String}

theorem hexValue?_hexDigit {n : Nat} (h : n < 16) :
    Octets.hexValue? (Octets.hexDigit n) = some n := by
  have : ∀ n < 16, Octets.hexValue? (Octets.hexDigit n) = some n := by decide
  exact this n h

/-- A control character is read back from its number. -/
theorem unicodeEscape_control (hcontrol : c.toNat < 32) (t : List Char) :
    unicodeEscape true
      ('0' :: '0' :: Octets.hexDigit (c.toNat / 16) :: Octets.hexDigit (c.toNat % 16) :: t) =
        .ok (c, t) := by
  have hdigits : fourDigits? '0' '0' (Octets.hexDigit (c.toNat / 16))
      (Octets.hexDigit (c.toNat % 16)) = some c.toNat := by
    have hzero : Octets.hexValue? '0' = some 0 := by decide
    have hvalue : c.toNat / 16 * 16 + c.toNat % 16 = c.toNat := by omega
    simp [fourDigits?, hzero, hexValue?_hexDigit (n := c.toNat / 16) (by omega),
      hexValue?_hexDigit (n := c.toNat % 16) (by omega), hvalue]
  have hlow : ¬ 0xDC00 ≤ c.toNat := by omega
  have hplain : c.toNat < 0xD800 := by omega
  simp [unicodeEscape, hexEscape, hdigits, hlow, hplain]

/-- An escaped character is read in one step. -/
theorem stringFrom_escape (fuel : Nat) (read : List Char) (c : Char) (t : List Char) :
    stringFrom true (fuel + 1) read (Writer.escape c ++ t) =
      stringFrom true fuel (c :: read) t := by
  unfold Writer.escape
  split_ifs with hquote hslash hn hr ht hb hf hcontrol
  · simp [stringFrom, escape, hquote]
  · simp [stringFrom, escape, hslash]
  · simp [stringFrom, escape, hn]
  · simp [stringFrom, escape, hr]
  · simp [stringFrom, escape, ht]
  · simp [stringFrom, escape, hb]
  · simp [stringFrom, escape, hf]
  · simp [stringFrom, escape, unicodeEscape_control hcontrol]
  · simp [stringFrom, hquote, hslash, hcontrol]

theorem stringFrom_flatMap (fuel : Nat) (read cs t : List Char) :
    stringFrom true (cs.length + fuel) read (cs.flatMap Writer.escape ++ t) =
      stringFrom true fuel (cs.reverse ++ read) t := by
  induction cs generalizing read with
  | nil => simp
  | cons c cs ih =>
      rw [List.length_cons, Nat.add_right_comm, List.flatMap_cons, List.append_assoc,
        stringFrom_escape, ih]
      simp

theorem length_escape_pos (c : Char) : 0 < (Writer.escape c).length := by
  unfold Writer.escape
  split_ifs <;> simp

theorem length_le_flatMap (cs : List Char) : cs.length ≤ (cs.flatMap Writer.escape).length := by
  induction cs with
  | nil => simp
  | cons c cs ih =>
      have := length_escape_pos c
      rw [List.flatMap_cons, List.length_append, List.length_cons]
      omega

/-- **A written string is read back.** -/
theorem string_quote (text : String) (t : List Char) :
    string true (text.toList.flatMap Writer.escape ++ '"' :: t) = .ok (text, t) := by
  rw [string_eq_ok_iff]
  have hle := length_le_flatMap text.toList
  obtain ⟨fuel, hfuel⟩ : ∃ fuel,
      (text.toList.flatMap Writer.escape ++ '"' :: t).length + 1 =
        text.toList.length + (fuel + 1) := by
    refine ⟨(text.toList.flatMap Writer.escape ++ '"' :: t).length - text.toList.length, ?_⟩
    rw [List.length_append] at *
    omega
  rw [hfuel, stringFrom_flatMap]
  simp [stringFrom]

end Workbench.Json.Reader
