/-
# The editor

Views and edits the files of a project. An edit replaces a stretch that occurs
exactly once, or puts in text after a line; it is remembered with what the file held
before, so that edits of a file can be undone, the last one first.

A request gets the file tree and the history, and gives back an answer, which is a
text or a refusal, and what the tree and the history are then.

* `Editor.view`, `Editor.viewDirectory` — change nothing.
* `Editor.create`, `Editor.replace`, `Editor.insert`, `Editor.undo` — change a file.
-/

import Workbench.Editor.History
import Workbench.Editor.Refusal
import Workbench.Editor.Splice
import Workbench.Text.Clip
import Workbench.Files.Access
import Workbench.Config.Settings

namespace Workbench

open Workbench.Files Workbench.Text Workbench.Config

/-- An editor: the project it works on and the limits of its answers. -/
structure Editor where
  project : Project
  limits : EditorSettings
  deriving DecidableEq, Repr

namespace Editor

/-- What an editor changes. -/
structure Desk where
  tree : Tree
  history : History Path
  deriving DecidableEq, Repr

/-- An answer, and what there is after it. -/
abbrev Outcome := Except Refusal String × Desk

/-- What is said at the end of a file that was cut. -/
def fileNotice : String :=
  "<response clipped><NOTE>Only part of this file is shown because it exceeded the response limit. Search the file for the lines you need, then view them with view_range.</NOTE>"

/-- What is said at the end of a listing that was cut. -/
def directoryNotice : String :=
  "<response clipped><NOTE>Only part of this directory is shown because it exceeded the response limit. View its subdirectories individually instead.</NOTE>"

/-! ### Paths -/

/-- The place that a written path names. -/
def resolve (e : Editor) (tree : Tree) (path : String) : Except Refusal Path :=
  (e.project.resolve tree path).mapError .escape

/-- The place of something that is there. -/
def resolveThere (e : Editor) (tree : Tree) (path : String) : Except Refusal Path := do
  let place ← e.resolve tree path
  if tree.isThere (Path.text place) then return place else throw (.notFound path)

/-- The place of something that is there and no directory. -/
def resolveFile (e : Editor) (tree : Tree) (path : String) : Except Refusal Path := do
  let place ← e.resolveThere tree path
  if tree.isDirectory (Path.text place) then throw (.misuse (.directory path)) else return place

/-- The text of the file at a place. -/
def readFile (tree : Tree) (path : String) (place : Path) : Except Refusal String :=
  (tree.readText (Path.text place)).mapError (.access path)

/-! ### Views -/

/-- The first and last line of a range, of a text with `count` lines; -1 stands for its
last line. -/
def checkRange (first last : Int) (count : Nat) : Except RangeFault (Nat × Nat) :=
  if first < 1 ∨ (count : Int) < first then .error (.start first last count)
  else if last = -1 then .ok (first.toNat, count)
  else if (count : Int) < last then .error (.stop first last count)
  else if last < first then .error (.order first last)
  else .ok (first.toNat, last.toNat)

/-- The numbered lines of a text, all of them or those of a range. -/
def numbered (content : String) : Option (Int × Int) → Except Refusal String
  | none => .ok (numberLines content 1)
  | some (first, last) =>
      let lines := Lines.split content.toList
      match checkRange first last lines.length with
      | .error fault => .error (.range fault)
      | .ok (start, stop) =>
          .ok (String.ofList (Lines.numberFrom start ((lines.take stop).drop (start - 1))))

/-- The answer to a request to view a directory. -/
def directoryText (e : Editor) (tree : Tree) (place : Path) : String :=
  let depth := e.limits.directoryViewDepth
  "Here are the files and directories up to " ++ toString depth ++ " levels deep in " ++
    e.project.relative place ++ ", excluding hidden items:\n" ++
    "\n".intercalate (levels tree e.project.root place depth) ++ "\n"

/-- Views a file, or the lines of a range of it, or a directory. -/
def view (e : Editor) (tree : Tree) (path : String) (range : Option (Int × Int)) :
    Except Refusal String := do
  let place ← e.resolveThere tree path
  if tree.isDirectory (Path.text place) then
    if range.isSome then throw (.misuse .rangeOfDirectory)
    return clip (e.directoryText tree place) e.limits.maxResponseChars directoryNotice
  else
    let content ← readFile tree path place
    return clip (← numbered content range) e.limits.maxResponseChars fileNotice

/-- Lists a directory down to a depth. -/
def viewDirectory (e : Editor) (tree : Tree) (path : String) (depth : Option Nat) :
    Except Refusal String := do
  let place ← e.resolveThere tree path
  if tree.isDirectory (Path.text place) then
    return (list tree e.project.root place depth e.limits.maxDirectoryEntries).text
  else throw (.misuse (.notADirectory path))

/-- The edits of a file, oldest first. -/
def changes (e : Editor) (desk : Desk) (path : String) : Except Refusal (List Change) :=
  (e.resolve desk.tree path).map desk.history.entries

/-! ### Edits -/

/-- The answer to an edit: the lines around it. -/
def editedText (e : Editor) (place : Path) (updated : List Char) (first span : Nat) : String :=
  let name := e.project.relative place
  "The file " ++ name ++
    " has been edited. Here's the result of running \x60cat -n\x60 on a snippet of " ++ name ++
    ":\n" ++ String.ofList (Lines.window updated first span e.limits.snippetContextLines) ++
    "\nReview the changes and make sure they are as expected. Edit the file again if necessary."

/-- Makes a file that is not there yet, and the directories that lead to it. -/
def create (e : Editor) (desk : Desk) (path text : String) : Outcome :=
  match e.resolve desk.tree path with
  | .error refusal => (.error refusal, desk)
  | .ok place =>
      if desk.tree.isThere (Path.text place) then (.error (.alreadyExists path), desk)
      else match desk.tree.makeDirectories place.dropLast.reverse with
        | (some fault, tree) => (.error (.access path fault), { desk with tree })
        | (none, ready) =>
            match ready.rewrite place text with
            | (some fault, tree) => (.error (.access path fault), { desk with tree })
            | (none, tree) =>
                (.ok ("File created successfully at: " ++ e.project.relative place),
                  ⟨tree, desk.history.push place ⟨none, .create⟩⟩)

/-- The one position at which `old` occurs in the text of a file. -/
def uniqueOccurrence (path old content : String) : Except Refusal Nat :=
  match occurrences old.toList content.toList with
  | [] => .error (.noMatch path old)
  | [position] => .ok position
  | many => .error (.ambiguous path (many.map (lineAt content.toList)))

/-- Writes an edited text and remembers the edit. -/
def commit (e : Editor) (desk : Desk) (path : String) (place : Path) (operation : Operation)
    (content : String) (updated : List Char) (first span : Nat) : Outcome :=
  match desk.tree.rewrite place (String.ofList updated) with
  | (some fault, tree) => (.error (.access path fault), { desk with tree })
  | (none, tree) =>
      (.ok (e.editedText place updated first span),
        ⟨tree, desk.history.push place ⟨some content, operation⟩⟩)

/-- What a replacement is about: the place of the file, what it holds, and the position. -/
def findReplacement (e : Editor) (tree : Tree) (path old new : String) :
    Except Refusal (Path × String × Nat) := do
  let place ← e.resolveFile tree path
  if old = "" then throw (.misuse .emptyOld)
  if old = new then throw (.noChange path)
  let content ← readFile tree path place
  let position ← uniqueOccurrence path old content
  return (place, content, position)

/-- Replaces the one stretch of a file that is `old`. -/
def replace (e : Editor) (desk : Desk) (path old new : String) : Outcome :=
  match e.findReplacement desk.tree path old new with
  | .error refusal => (.error refusal, desk)
  | .ok (place, content, position) =>
      e.commit desk path place .replace content
        (replaceAt content.toList old.toList new.toList position)
        (lineAt content.toList position - 1) (Lines.newlines new.toList + 1)

/-- What an insertion is about: the place of the file, what it holds, and after how many
of its lines. -/
def findInsertion (e : Editor) (tree : Tree) (path : String) (line : Int) :
    Except Refusal (Path × String × Nat) := do
  let place ← e.resolveFile tree path
  let content ← readFile tree path place
  let count := (Lines.split content.toList).length
  if line < 0 ∨ (count : Int) < line then throw (.range (.insertion line count))
  return (place, content, line.toNat)

/-- Puts in a text after a line. -/
def insert (e : Editor) (desk : Desk) (path : String) (line : Int) (text : String) : Outcome :=
  match e.findInsertion desk.tree path line with
  | .error refusal => (.error refusal, desk)
  | .ok (place, content, after) =>
      e.commit desk path place .insert content (insertLines content.toList after text.toList)
        after (max (Lines.split text.toList).length 1)

/-- Puts a file back to what it was before an edit. -/
def restore (tree : Tree) (place : Path) : Option String → Option Fault × Tree
  | some text => tree.rewrite place text
  | none =>
      if tree.isThere (Path.text place) then
        match tree.removeFile (Path.text place) with
        | .ok without => (none, without)
        | .error fault => (some fault, tree)
      else (none, tree)

/-- The answer to an undone edit. -/
def undoneText (e : Editor) (place : Path) : Option String → String
  | some text =>
      let name := e.project.relative place
      clip ("Last edit to " ++ name ++
        " undone successfully. Here's the result of running \x60cat -n\x60 on " ++ name ++
        ":\n" ++ numberLines text 1) e.limits.maxResponseChars fileNotice
  | none =>
      "Last edit to " ++ e.project.relative place ++
        " undone successfully. The file did not exist before it was created and has been removed."

/-- Undoes the last edit of a file; one that cannot be undone stays the last. -/
def undo (e : Editor) (desk : Desk) (path : String) : Outcome :=
  match e.resolve desk.tree path with
  | .error refusal => (.error refusal, desk)
  | .ok place =>
      match desk.history.pop? place with
      | none => (.error (.noHistory path), desk)
      | some (change, history) =>
          match restore desk.tree place change.previous with
          | (none, tree) => (.ok (e.undoneText place change.previous), ⟨tree, history⟩)
          | (some fault, tree) =>
              (.error (.access path fault), ⟨tree, history.push place change⟩)

/-- A request to the editor. -/
inductive Request where
  | view (path : String) (range : Option (Int × Int))
  | viewDirectory (path : String) (depth : Option Nat)
  | create (path text : String)
  | replace (path old new : String)
  | insert (path : String) (line : Int) (text : String)
  | undo (path : String)
  deriving DecidableEq, Repr

/-- Answers a request. -/
def answer (e : Editor) (desk : Desk) : Request → Outcome
  | .view path range => (e.view desk.tree path range, desk)
  | .viewDirectory path depth => (e.viewDirectory desk.tree path depth, desk)
  | .create path text => e.create desk path text
  | .replace path old new => e.replace desk path old new
  | .insert path line text => e.insert desk path line text
  | .undo path => e.undo desk path

end Editor

end Workbench
