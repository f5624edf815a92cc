/-
# Questions in double brackets

A condition in double brackets asks about words that are not split: whether a text is
empty, what two texts or numbers are to each other, what a path leads to, and whether a
text fits a pattern or an expression. Questions are joined by operators, and the second of
two is not asked where the first one has the answer.

* `Question.ofWords` — the question that words ask.
* `Question.answer` — its answer.
-/

import Workbench.Shell.Condition
import Workbench.Shell.Expansion
import Workbench.Text.Regex

namespace Workbench.Shell

open Workbench.Text

/-- What a condition asks. -/
inductive Question where
  | isThere (word : Word)
  | unary (operator : String) (operand : Word)
  | binary (operator : String) (first second : Word)
  | not (question : Question)
  | both (first second : Question)
  | either (first second : Question)
  deriving Repr

namespace Question

mutual

/-- Reads alternatives. -/
def readEither : Nat → List Word → Option (Question × List Word)
  | 0, _ => none
  | fuel + 1, ws => do
      let (a, rest) ← readBoth fuel ws
      match rest with
      | [.plain "||" false] :: rest =>
          let (b, rest) ← readEither fuel rest
          return (.either a b, rest)
      | _ => return (a, rest)

/-- Reads questions of which all count. -/
def readBoth : Nat → List Word → Option (Question × List Word)
  | 0, _ => none
  | fuel + 1, ws => do
      let (a, rest) ← readOne fuel ws
      match rest with
      | [.plain "&&" false] :: rest =>
          let (b, rest) ← readBoth fuel rest
          return (.both a b, rest)
      | _ => return (a, rest)

/-- Reads one question. -/
def readOne : Nat → List Word → Option (Question × List Word)
  | 0, _ => none
  | _, [] => none
  | fuel + 1, w :: rest => do
      match w.text? with
      | some "!" =>
          let (q, rest) ← readOne fuel rest
          return (.not q, rest)
      | some "(" =>
          let (q, rest) ← readEither fuel rest
          match rest with
          | [.plain ")" false] :: rest => return (q, rest)
          | _ => none
      | text =>
          match rest with
          | operator :: b :: more =>
              match operator.text? with
              | some o =>
                  if Condition.binary.contains o then return (.binary o w b, more)
              | none => pure ()
          | _ => pure ()
          match text, rest with
          | some o, a :: rest =>
              if Condition.unary.contains o then return (.unary o a, rest)
          | _, _ => pure ()
          return (.isThere w, rest)

end

/-- The question that words ask, if they ask one. -/
def ofWords (ws : List Word) : Option Question :=
  match readEither (4 * ws.length + 4) ws with
  | some (q, []) => some q
  | _ => none

/-- The text of an expression; what is in quotes stands for itself. -/
def expressionOf (f : Field) : String :=
  String.ofList (f.text.flatMap fun (c, origin) =>
    if origin = .quoted && !c.isAlphanum then ['\\', c] else [c])

/-- The number that a word is. -/
def numberOf (capture : Capture) (w : Word) : Run Int := do
  compute (← expandText capture w)

/-- The answer to a question. -/
def answer (capture : Capture) : Question → Run Bool
  | .isThere w => do return (← expandText capture w) != ""
  | .unary operator w => do
      let text ← expandText capture w
      return Condition.ask (← get) operator text
  | .binary operator a b => do
      if Condition.numeric.contains operator then
        let x ← numberOf capture a
        let y ← numberOf capture b
        match Condition.compare (toString x) operator (toString y) with
        | .ok holds => return holds
        | .error _ => return false
      let text ← expandText capture a
      if operator = "=~" then
        let fields ← fieldsOf capture (b.length + partDepth) b
        match Regex.ofText? true (expressionOf (fields.foldl Field.append {})) with
        | some r => return (r.find? false text.toList.toArray 0).isSome
        | none => throw (.given 2)
      if operator = "<" || operator = ">" then
        let other ← expandText capture b
        match Condition.compare text operator other with
        | .ok holds => return holds
        | .error _ => return false
      let fits := Wildcard.fits false (← expandPattern capture b) text.toList
      return fits == (operator != "!=")
  | .not q => do return !(← answer capture q)
  | .both a b => do
      if ← answer capture a then answer capture b else return false
  | .either a b => do
      if ← answer capture a then return true else answer capture b

end Question

end Workbench.Shell
