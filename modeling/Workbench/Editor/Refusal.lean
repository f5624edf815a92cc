/-
# Refused edits

Why the editor does not do what it is asked, and how it says so. Every refusal has a
kind, by which a caller tells refusals apart, and a message.
-/

import Workbench.Project.Basic

namespace Workbench.Editor

open Workbench.Files

/-- What is wrong with a range of lines, of a file with `count` lines. -/
inductive RangeFault where
  | start (first last : Int) (count : Nat)
  | stop (first last : Int) (count : Nat)
  | order (first last : Int)
  | insertion (line : Int) (count : Nat)
  deriving DecidableEq, Repr

/-- How a range is written. -/
def rangeText (first last : Int) : String :=
  "Invalid \x60view_range\x60: [" ++ toString first ++ ", " ++ toString last ++ "]."

/-- The wording of what is wrong with a range. -/
def RangeFault.message : RangeFault → String
  | start first last count =>
      rangeText first last ++ " Its first element \x60" ++ toString first ++
        "\x60 should be within the range of lines of the file: [1, " ++ toString count ++ "]"
  | stop first last count =>
      rangeText first last ++ " Its second element \x60" ++ toString last ++
        "\x60 should be smaller than the number of lines in the file: \x60" ++
        toString count ++ "\x60"
  | order first last =>
      rangeText first last ++ " Its second element \x60" ++ toString last ++
        "\x60 should be larger or equal than its first \x60" ++ toString first ++ "\x60"
  | insertion line count =>
      "Invalid \x60insert_line\x60 parameter: " ++ toString line ++
        ". It should be within the range of lines of the file: [0, " ++ toString count ++ "]"

/-- What is wrong with the parameters of a request. -/
inductive Misuse where
  | notADirectory (path : String)
  | rangeOfDirectory
  | emptyOld
  | directory (path : String)
  | absent (parameter command : String)
  | rangeLength
  | unknownCommand (command : String)
  deriving DecidableEq, Repr

/-- The wording of a misuse. -/
def Misuse.message : Misuse → String
  | notADirectory path => path ++ " is not a directory"
  | rangeOfDirectory =>
      "The \x60view_range\x60 parameter is not allowed when \x60path\x60 points to a directory."
  | emptyOld => "Parameter \x60old_str\x60 must not be empty for command: str_replace"
  | directory path =>
      "The path " ++ path ++
        " is a directory and only the \x60view\x60 command can be used on directories"
  | absent parameter command =>
      "Parameter \x60" ++ parameter ++ "\x60 is required for command: " ++ command
  | rangeLength => "Invalid \x60view_range\x60. It should be a list of two integers."
  | unknownCommand command =>
      "Unrecognized command " ++ command ++
        ". The allowed commands are: view, create, str_replace, insert, undo_edit"

/-- Why the editor refuses. -/
inductive Refusal where
  | notFound (path : String)
  | alreadyExists (path : String)
  | ambiguous (path : String) (lines : List Nat)
  | noMatch (path old : String)
  | noChange (path : String)
  | range (fault : RangeFault)
  | noHistory (path : String)
  | escape (e : Escape)
  | misuse (m : Misuse)
  | access (path : String) (fault : Fault)
  deriving DecidableEq, Repr

namespace Refusal

/-- The kind of a refusal. -/
def kind : Refusal → String
  | notFound _ => "NotFoundError"
  | alreadyExists _ => "AlreadyExistsError"
  | ambiguous _ _ => "AmbiguousMatchError"
  | noMatch _ _ => "NoMatchError"
  | noChange _ => "NoOpError"
  | range _ => "RangeError"
  | noHistory _ => "NoHistoryError"
  | escape _ => "PathEscapeError"
  | misuse _ => "InvalidParameterError"
  | access _ _ => "IoError"

/-- The wording of a refusal. -/
def message : Refusal → String
  | notFound path => "The path " ++ path ++ " does not exist. Please provide a valid path."
  | alreadyExists path =>
      "File already exists at: " ++ path ++ ". Cannot overwrite files using command \x60create\x60."
  | ambiguous path lines =>
      "No replacement was performed. old_str matches " ++ toString lines.length ++
        " locations in " ++ path ++ " (lines " ++
        ", ".intercalate (lines.map toString) ++ "), must be unique."
  | noMatch path old =>
      "No replacement was performed, old_str \x60" ++ old ++
        "\x60 did not appear verbatim in " ++ path ++ "."
  | noChange path =>
      "No replacement was performed: new_str is identical to old_str in " ++ path ++ "."
  | range fault => fault.message
  | noHistory path => "No edit history found for " ++ path ++ "."
  | escape e => e.message
  | misuse m => m.message
  | access path fault => "Failed to access " ++ path ++ ": " ++ fault.message

end Refusal

end Workbench.Editor
