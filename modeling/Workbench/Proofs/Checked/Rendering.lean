/-
# Rendered lines, with every step checked

A text is numbered, cut to a limit, and shown around an edit, with words that may overflow.
A text has no more lines than bytes. So the numbers of its lines stay in range when counting
starts at a line of a text in memory; the end of a window does when the edit
lies in the text and the lines shown below it are as many as a configuration can ask for.

* `Checked.number_eq`, `Checked.clip_eq`, `Checked.window_eq` — **no step of the way is out of
  range**, for numbering, cutting and windows.
-/

import Workbench.Proofs.Checked.Chunking
import Workbench.Proofs.Text.Lines

namespace Workbench.Checked

open Workbench.Text

/-- The lines, the first of which is the line `i` after `first`, with their numbers. -/
def numberEach (first i : Nat) : List (List Char) → Checked (List Char)
  | [] => .ok []
  | line :: lines => do
      let n ← add first i
      let next ← add i 1
      let rest ← numberEach first next lines
      return Lines.label n ++ '\t' :: line ++ rest

/-- The numbered form of a text; the room for it is estimated first. -/
def number (s : List Char) (first : Nat) : Checked (List Char) := do
  let _room ← add (byteLength s) (byteLength s / 8)
  numberEach first 0 (Lines.split s)

/-- A text cut to a limit, followed by a notice that it was cut. -/
def clip (content : String) (limit : Nat) (notice : String) : Checked String :=
  if content.utf8ByteSize ≤ limit then .ok content
  else do
    let cut ← floor content.toList limit
    let kept ← slice content.toList 0 cut
    return String.ofList kept ++ notice

/-- The numbered lines around an edit. -/
def window (s : List Char) (first span context : Nat) : Checked (List Char) := do
  let lines := Lines.split s
  let start := min (first - context) lines.length
  let last ← add first (max span 1)
  let reach ← add last context
  let shown ← part lines start (min reach lines.length)
  let counted ← add start 1
  number shown.flatten counted

/-! ### Lines and bytes -/

theorem length_split_le (s : List Char) : (Lines.split s).length ≤ byteLength s := by
  induction s using Lines.lines_induction with
  | empty => exact Nat.le_refl _
  | last line hne hline =>
    rw [Lines.split_last hline hne, List.length_singleton]
    exact byteLength_pos hne
  | more line rest hline ih =>
    have hnewline : ('\n' : Char).utf8Size = 1 := by decide
    rw [Lines.split_line hline, List.length_cons, byteLength_append, byteLength_cons, hnewline]
    omega

theorem flatten_part_isInfix {α : Type} (xs : List (List α)) (i j : Nat) :
    ((xs.take j).drop i).flatten <:+: xs.flatten :=
  ⟨((xs.take j).take i).flatten, (xs.drop j).flatten, by
    rw [← List.flatten_append, List.take_append_drop, ← List.flatten_append,
      List.take_append_drop]⟩

/-- Some of the lines of a text are no longer than the text. -/
theorem byteLength_part_le (s : List Char) (i j : Nat) :
    byteLength (((Lines.split s).take j).drop i).flatten ≤ byteLength s := by
  have h := byteLength_le_of_isInfix (flatten_part_isInfix (Lines.split s) i j)
  rwa [Lines.flatten_split] at h

/-- Some of the lines of a text are the lines of what they make up. -/
theorem split_flatten_part (s : List Char) (i j : Nat) :
    Lines.split (((Lines.split s).take j).drop i).flatten = ((Lines.split s).take j).drop i := by
  have h := Lines.split_flatten_drop ((Lines.split s).take j).flatten i
  rwa [Lines.split_flatten_take] at h

/-! ### Every step is in range -/

theorem numberEach_eq {first i : Nat} {lines : List (List Char)}
    (h : first + i + lines.length < 2 ^ 64) :
    numberEach first i lines = .ok (Lines.numberFrom (first + i) lines) := by
  induction lines generalizing i with
  | nil => rfl
  | cons line lines ih =>
    rw [List.length_cons] at h
    rw [numberEach, add_eq (by omega), Attempt.ok_bind, add_eq (by omega), Attempt.ok_bind,
      ih (by omega), Attempt.ok_bind]
    rfl

theorem number_eq {s : List Char} {first : Nat} (fits : byteLength s < 2 ^ 63)
    (hfirst : first ≤ 2 ^ 63) : number s first = .ok (Lines.number s first) := by
  have hlines := length_split_le s
  rw [number, add_eq (by omega), Attempt.ok_bind, numberEach_eq (by omega)]
  rfl

theorem clip_eq (content : String) (limit : Nat) (notice : String) :
    clip content limit notice = .ok (Text.clip content limit notice) := by
  unfold clip Text.clip
  split
  · rfl
  · rw [floor_eq, Attempt.ok_bind, Position.floor_eq, slice_of_isPrefix (prefix_takeBytes ..)]
    rfl

theorem number_part_eq {s : List Char} {i j first : Nat} (fits : byteLength s < 2 ^ 63)
    (hfirst : first ≤ 2 ^ 63) :
    number (((Lines.split s).take j).drop i).flatten first =
      .ok (Lines.numberFrom first (((Lines.split s).take j).drop i)) := by
  have hle := byteLength_part_le s i j
  rw [number_eq (by omega) hfirst, Lines.number, split_flatten_part]

theorem window_eq {s : List Char} {first span context : Nat} (fits : byteLength s < 2 ^ 63)
    (hreach : first + max span 1 + context < 2 ^ 64) :
    window s first span context = .ok (Lines.window s first span context) := by
  have hlines := length_split_le s
  unfold window
  simp only
  rw [add_eq (by omega), Attempt.ok_bind, add_eq hreach, Attempt.ok_bind,
    part_eq (by omega) (Nat.min_le_right ..), Attempt.ok_bind, add_eq (by omega), Attempt.ok_bind,
    number_part_eq fits (by omega)]
  rfl

/-- With as many lines of context as an unsigned word can count, a window would not be. -/
example : window ['a'] 0 1 (2 ^ 64 - 1) = .error .overflow := rfl

end Workbench.Checked
