/-
# Shell commands

What scripts are made of: words with parts that stand for something else, redirections of
streams, and commands. The characters of a script are bytes, as a shell without a locale
sees them.
-/

namespace Workbench.Shell

/-- A part of a word. What is in quotes is never split and never stands for files. -/
inductive Part where
  | plain (text : String) (isQuoted : Bool)
  /-- The value of a variable, perhaps changed by an operator with an operand. -/
  | variable (name change : String) (operand : List Part) (isQuoted : Bool)
  /-- What a script writes. -/
  | output (script : String) (isQuoted : Bool)
  /-- The value of an arithmetic expression. -/
  | arithmetic (expression : List Part) (isQuoted : Bool)
  deriving BEq, Repr

/-- A word. -/
abbrev Word := List Part

/-- What becomes of a stream. -/
inductive Opening where
  | read
  | write
  | append
  | copy
  /-- It reads a text that the script holds. -/
  | document
  /-- It reads a word and the end of a line. -/
  | line
  deriving DecidableEq, Repr

/-- A redirection: of which streams, how, and from or to where. -/
structure Redirection where
  streams : List Nat
  opening : Opening
  word : Word
  deriving Repr

/-- A command. -/
inductive Command where
  | simple (line : Nat) (words : List Word) (redirections : List Redirection)
  /-- A condition in double brackets. -/
  | condition (line : Nat) (words : List Word)
  /-- An arithmetic expression as a command. -/
  | compute (line : Nat) (expression : Word)
  | nothing
  | inOrder (first second : Command)
  | both (first second : Command)
  | either (first second : Command)
  | pipeline (isNegated : Bool) (parts : List Command)
  | redirected (body : Command) (redirections : List Redirection)
  /-- In a copy of the shell. -/
  | apart (body : Command)
  | branch (test yes no : Command)
  /-- As long as the test ends with success, or with failure. -/
  | loop (onSuccess : Bool) (test body : Command)
  | forEach (name : String) (words : Option (List Word)) (body : Command)
  | count (line : Nat) (start test step : Word) (body : Command)
  | choice (subject : Word) (arms : List (List Word × Command))
  | define (name : String) (body : Command)
  deriving Repr

/-- The text of a word that is nothing else. -/
def Word.text? : Word → Option String
  | [.plain text false] => some text
  | _ => none

/-- How a part is written, without its quotes. -/
def Part.source : Part → String
  | .plain text _ => text
  | .variable name "" _ _ => "$" ++ name
  | .variable name change _ _ => "$\x7b" ++ name ++ change ++ "\x7d"
  | .output script _ => "$(" ++ script ++ ")"
  | .arithmetic _ _ => "$(())"

/-- How a word is written, without its quotes. -/
def Word.source (w : Word) : String :=
  String.join (w.map Part.source)

end Workbench.Shell
