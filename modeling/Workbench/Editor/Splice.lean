/-
# Splices

What an edit makes of a text: one stretch of it replaced by another, or text put in
between two of its lines.

* `occurrences` — where a text occurs in another, overlapping places included.
* `replaceAt` — the text with the stretch at a place replaced.
* `insertLines` — the text with more put in after a number of its lines.
-/

import Workbench.Text.Lines

namespace Workbench.Editor

open Workbench.Text

/-- The positions, in characters from `start` on, at which `old` occurs in a text. -/
def occurrencesFrom (old : List Char) (start : Nat) : List Char → List Nat
  | [] => if old.isPrefixOf [] then [start] else []
  | c :: rest =>
      let later := occurrencesFrom old (start + 1) rest
      if old.isPrefixOf (c :: rest) then start :: later else later

/-- The positions, in characters, at which `old` occurs in a text. -/
def occurrences (old s : List Char) : List Nat :=
  occurrencesFrom old 0 s

/-- The number of the line that a position lies in, counted from 1. -/
def lineAt (s : List Char) (position : Nat) : Nat :=
  Lines.newlines (s.take position) + 1

/-- The text with `old` at a position replaced. -/
def replaceAt (s old new : List Char) (position : Nat) : List Char :=
  s.take position ++ new ++ s.drop (position + old.length)

/-- A text with a newline at its end, unless it is empty. -/
def closeLine (s : List Char) : List Char :=
  if s ≠ [] ∧ s.getLast? ≠ some '\n' then s ++ ['\n'] else s

/-- The newline between an inserted text and what comes after it. -/
def joint (s text rest : List Char) : List Char :=
  if text.getLast? ≠ some '\n' ∧ (rest ≠ [] ∨ s.getLast? = some '\n') then ['\n'] else []

/-- The text with more put in after a number of its lines. -/
def insertLines (s : List Char) (after : Nat) (text : List Char) : List Char :=
  let lines := Lines.split s
  let rest := (lines.drop after).flatten
  closeLine (lines.take after).flatten ++ text ++ joint s text rest ++ rest

end Workbench.Editor
