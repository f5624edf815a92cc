/-
# Unified differences

Changes from one text to another as they are shown: in hunks, each with three lines
around its changes that stay. A hunk starts with where it is in both texts and with the
last line above it that starts with a letter, which often names what the hunk is part of.

* `Unified.hunks` — the hunks of two texts.
* `Hunk.octets` — how a hunk is written.
-/

import Workbench.Text.Difference
import Workbench.Text.Octets

namespace Workbench.Text

/-- What becomes of a line. -/
inductive Fate where
  | stays
  | goes
  | comes
  deriving DecidableEq, Repr

/-- The sign of what becomes of a line. -/
def Fate.sign : Fate → UInt8
  | stays => 0x20
  | goes => 0x2D
  | comes => 0x2B

/-- A part of a difference: where it starts in both texts, counted from 0, what it is
part of, and its lines. -/
structure Hunk where
  first₁ : Nat
  first₂ : Nat
  heading : Octets
  lines : List (Fate × Octets)
  deriving DecidableEq, Repr

namespace Unified

open Difference

/-- The byte that ends a line. -/
def newline : UInt8 := 0x0A

/-- The lines of a text, with what ends them; the last one may lack it. -/
def lines : Octets → List Octets
  | [] => []
  | b :: rest =>
      if b = newline then [b] :: lines rest
      else match lines rest with
        | line :: others => (b :: line) :: others
        | [] => [[b]]

/-- How many lines that stay are shown around changes. -/
def context : Nat := 3

/-- Changes by hunks: with no more lines between them than are shown around them. -/
def groups : List Change → List (List Change)
  | [] => []
  | c :: rest =>
      match groups rest with
      | (d :: ds) :: others =>
          if d.first₁ - (c.first₁ + c.count₁) ≤ 2 * context then (c :: d :: ds) :: others
          else [c] :: (d :: ds) :: others
      | others => [c] :: others

/-- A byte is blank. -/
def isBlank (b : UInt8) : Bool :=
  b = 0x20 || (0x09 ≤ b && b ≤ 0x0D)

/-- A byte is one that a heading can start with. -/
def startsHeading (b : UInt8) : Bool :=
  (0x41 ≤ b && b ≤ 0x5A) || (0x61 ≤ b && b ≤ 0x7A) || b = 0x5F || b = 0x24

/-- What a line says as a heading, if it can be one. -/
def heading? (line : Octets) : Option Octets :=
  match (line.reverse.dropWhile isBlank).reverse with
  | b :: rest => if startsHeading b then some ((b :: rest).take 80) else none
  | [] => none

/-- The lines of a hunk from a line of the second text on. -/
def hunkLines (a b : List Octets) : Nat → List Change → List (Fate × Octets)
  | j, [] => ((b.drop j).take context).map (.stays, ·)
  | j, c :: rest =>
      ((b.drop j).take (c.first₂ - j)).map (.stays, ·) ++
        ((a.drop c.first₁).take c.count₁).map (.goes, ·) ++
        ((b.drop c.first₂).take c.count₂).map (.comes, ·) ++
        hunkLines a b (c.first₂ + c.count₂) rest

/-- The hunk of changes. -/
def hunk? (a b : List Octets) : List Change → Option Hunk
  | [] => none
  | c :: rest =>
      let first₁ := c.first₁ - context
      let first₂ := c.first₂ - context
      some ⟨first₁, first₂, ((a.take first₁).reverse.findSome? heading?).getD [],
        hunkLines a b first₂ (c :: rest)⟩

/-- The hunks of two texts. -/
def hunks (a b : Octets) : List Hunk :=
  (groups (changes (lines a) (lines b))).filterMap (hunk? (lines a) (lines b))

/-- A line as it is written. -/
def written : Fate × Octets → Octets
  | (fate, line) =>
      fate.sign :: line ++
        if line.getLast? = some newline then []
        else Octets.ofText "\n\\ No newline at end of file\n"

/-- Where a hunk is in a text, counted from 1; of no lines the line before is told. -/
def span (first count : Nat) : String :=
  toString (if count = 0 then first else first + 1) ++
    if count = 1 then "" else "," ++ toString count

end Unified

/-- How a hunk is written. -/
def Hunk.octets (h : Hunk) : Octets :=
  let count (fate : Fate) := h.lines.countP (·.1 != fate)
  Octets.ofText ("@@ -" ++ Unified.span h.first₁ (count .comes) ++ " +" ++
      Unified.span h.first₂ (count .goes) ++ " @@") ++
    (if h.heading = [] then [] else 0x20 :: h.heading) ++
    Unified.newline :: h.lines.flatMap Unified.written

end Workbench.Text
