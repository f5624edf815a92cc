/-
# Editing tools

The tool that views and edits files, and the one that lists directories. Both work
on what an editor changes; the parameters of a call are made into a request to the
editor, unless one is missing that the command needs.
-/

import Workbench.Tool.Basic
import Workbench.Editor.Basic

namespace Workbench.Tool

open Workbench.Json Workbench.Files

/-- The parameters of the editing tool. -/
structure EditParameters where
  command : String := ""
  path : String := ""
  fileText : Option String := none
  oldText : Option String := none
  newText : Option String := none
  insertLine : Option Int := none
  viewRange : Option (List Int) := none
  deriving DecidableEq, Repr

namespace EditParameters

/-- How the parameters are read. -/
def shape : Shape EditParameters where
  name := "Params"
  blank := {}
  fields := [
    required "command" Decode.text fun p s => { p with command := s },
    required "path" Decode.text fun p s => { p with path := s },
    optional "file_text" (Decode.optional Decode.text) fun p s => { p with fileText := s },
    optional "old_str" (Decode.optional Decode.text) fun p s => { p with oldText := s },
    optional "new_str" (Decode.optional Decode.text) fun p s => { p with newText := s },
    optional "insert_line" (Decode.optional Decode.signed) fun p n => { p with insertLine := n },
    optional "view_range" (Decode.optional (Decode.list Decode.signed)) fun p r =>
      { p with viewRange := r }]

/-- A parameter that a command needs. -/
def need {α : Type} (p : EditParameters) (name : String) (value : Option α) :
    Except Editor.Misuse α :=
  match value with
  | some x => .ok x
  | none => .error (.absent name p.command)

/-- The request that the parameters make. -/
def request (p : EditParameters) : Except Editor.Misuse Editor.Request :=
  match p.command with
  | "view" =>
      match p.viewRange with
      | none => .ok (.view p.path none)
      | some [first, last] => .ok (.view p.path (some (first, last)))
      | some _ => .error .rangeLength
  | "create" => do
      return .create p.path (← p.need "file_text" p.fileText)
  | "str_replace" => do
      return .replace p.path (← p.need "old_str" p.oldText) (p.newText.getD "")
  | "insert" => do
      let line ← p.need "insert_line" p.insertLine
      return .insert p.path line (← p.need "new_str" p.newText)
  | "undo_edit" => .ok (.undo p.path)
  | other => .error (.unknownCommand other)

end EditParameters

/-- The result of an answer of the editor. -/
def ofAnswer : Except Editor.Refusal String → Result
  | .ok output => .done output
  | .error refusal => .failedAs refusal.kind refusal.message

/-- Puts a request to an editor. -/
def ask (e : Editor) (request : Editor.Request) (desk : Editor.Desk) : Result × Editor.Desk :=
  let (answer, desk) := e.answer desk request
  (ofAnswer answer, desk)

/-- The tool that views and edits files. -/
def editing (e : Editor) : Callable Editor.Desk where
  name := "str_replace_editor"
  description :=
    "Custom editing tool for viewing, creating and editing files. \x60view\x60 shows a file with \x60cat -n\x60 line numbers (optionally only \x60view_range\x60) or lists a directory up to 2 levels deep. \x60create\x60 cannot be used if \x60path\x60 already exists. \x60str_replace\x60 replaces \x60old_str\x60, which must match EXACTLY ONE location in the file including whitespace; include enough surrounding context to make it unique. \x60insert\x60 adds \x60new_str\x60 after line \x60insert_line\x60 (0 inserts at the top). \x60undo_edit\x60 reverts the last edit made to the file at \x60path\x60. Long outputs are truncated and marked with \x60<response clipped>\x60."
  schema := parametersSchema [
    ("command", typed "string" [
      ("enum", .array (["view", "create", "str_replace", "insert", "undo_edit"].map .string)),
      ("description", .string "The command to run")]),
    ("path", described "string" "File or directory path, relative to the project root"),
    ("file_text", described "string" "Required for \x60create\x60: content of the new file"),
    ("old_str", described "string" "Required for \x60str_replace\x60: exact text to replace"),
    ("new_str", described "string"
      "Replacement text for \x60str_replace\x60 (empty deletes), or the text for \x60insert\x60"),
    ("insert_line", described "integer"
      "Required for \x60insert\x60: \x60new_str\x60 goes after this line"),
    ("view_range", typed "array" [
      ("items", typed "integer" []),
      ("description", .string
        "Optional for \x60view\x60 on a file: [start, end], 1-based; end -1 means to the last line")])]
    ["command", "path"]
  run v desk := withParameters EditParameters.shape v desk fun p desk =>
    match p.request with
    | .ok request => ask e request desk
    | .error misuse => (ofAnswer (.error (.misuse misuse)), desk)

/-- The parameters of the listing tool. -/
structure ListParameters where
  directory : String := "./"
  depth : Option Nat := none
  deriving DecidableEq, Repr

/-- How the parameters of the listing tool are read. -/
def ListParameters.shape : Shape ListParameters where
  name := "Params"
  blank := {}
  fields := [
    optional "dir_path" Decode.text fun p s => { p with directory := s },
    optional "depth" (Decode.optional Decode.size) fun p n => { p with depth := n }]

/-- The tool that lists directories. -/
def listing (e : Editor) : Callable Editor.Desk where
  name := "view_directory"
  description :=
    "View the file structure of the project or one of its directories. Directories end with \x60/\x60; hidden entries are skipped. When the listing is too large the depth is reduced automatically and a note says so."
  schema := parametersSchema [
    ("dir_path", described "string" "Directory relative to the project root (default: ./)"),
    ("depth", typed "integer" [
      ("minimum", .ofNat 0),
      ("description", .string
        "Levels below dir_path to include (0 = direct children). Unlimited if omitted.")])] []
  run v desk := withParameters ListParameters.shape v desk fun p desk =>
    ask e (.viewDirectory p.directory p.depth) desk

end Workbench.Tool
