/-
# Reading and changing a file tree

Every access is one step that either changes the tree as asked or fails and leaves
it alone; `makeDirectories` and `rewrite` are made of several such steps, and what
the steps before a failing one did stays done unless it is undone explicitly.

* `Tree.rewrite` — puts a new text in the place of a file through a temporary file
  beside it.
-/

import Workbench.Files.Tree

namespace Workbench.Files

open Workbench.Text

namespace Tree

/-- What a file holds. -/
def read (tree : Tree) (text : String) : Except Fault Content := do
  match ← tree.stat text with
  | .file _ content => return content
  | .directory _ => throw .isDirectory
  | .link _ => throw .tooManyLinks

/-- The text of a file. -/
def readText (tree : Tree) (text : String) : Except Fault String := do
  match ← tree.read text with
  | .text s => return s
  | .raw _ => throw .notText
  | .database _ => throw .notText

/-- Writes a file, a new one if there is none. -/
def write (tree : Tree) (text : String) (content : Content) : Except Fault Tree := do
  let place ← tree.find true text
  match place.entry with
  | some (.file mode _) => return tree.put place.path (.file mode content)
  | some (.directory _) => throw .isDirectory
  | some (.link _) => throw .tooManyLinks
  | none => return tree.put place.path (.file fileMode content)

/-- Sets the permissions of what a path leads to. -/
def setMode (tree : Tree) (text : String) (mode : Nat) : Except Fault Tree := do
  let place ← tree.find true text
  match place.entry with
  | some (.file _ content) => return tree.put place.path (.file mode content)
  | some (.directory _) => return tree.put place.path (.directory mode)
  | some (.link _) => throw .tooManyLinks
  | none => throw .missing

/-- Makes a directory. -/
def makeDirectory (tree : Tree) (text : String) : Except Fault Tree := do
  let place ← tree.find false text
  match place.entry with
  | some _ => throw .taken
  | none => return tree.put place.path (.directory directoryMode)

/-- Makes a symbolic link. -/
def makeLink (tree : Tree) (text target : String) : Except Fault Tree := do
  let place ← tree.find false text
  match place.entry with
  | some _ => throw .taken
  | none => return tree.put place.path (.link target)

/-- Removes a file or a link. -/
def removeFile (tree : Tree) (text : String) : Except Fault Tree := do
  let place ← tree.find false text
  match place.entry with
  | some (.directory _) => throw .isDirectory
  | some _ => return tree.erase place.path
  | none => throw .missing

/-- Removes a directory and all below it; of a link only the link itself. -/
def removeDirectory (tree : Tree) (text : String) : Except Fault Tree := do
  let place ← tree.find false text
  match place.entry with
  | some (.directory _) => return tree.prune place.path
  | some (.link _) => return tree.erase place.path
  | some (.file _ _) => throw .notDirectory
  | none => throw .missing

/-- The tree with all that is at or below one place moved to another. -/
def move (tree : Tree) (source target : Path) : Tree :=
  { tree with entries := (tree.entries.filter (·.1 != target)).map fun (path, entry) =>
      if source.isPrefixOf path then (target ++ path.drop source.length, entry)
      else (path, entry) }

/-- Moves what is at one path to another. A file takes the place of a file or a
link, a directory that of an empty directory. -/
def rename (tree : Tree) (source target : String) : Except Fault Tree := do
  let old ← tree.find false source
  let new ← tree.find false target
  match old.entry with
  | none => throw .missing
  | some entry =>
      if old.path = new.path then return tree
      match entry, new.entry with
      | .directory _, some (.directory _) =>
          if tree.below new.path = [] then return tree.move old.path new.path else throw .notEmpty
      | .directory _, some _ => throw .notDirectory
      | .directory _, none => return tree.move old.path new.path
      | _, some (.directory _) => throw .isDirectory
      | _, _ => return (tree.erase old.path).put new.path entry

/-- Makes the directories that lead to a place, and one there, as far as they are not
there; the fault that stopped it, if one did, and the tree then. -/
def makeDirectories (tree : Tree) : List String → Option Fault × Tree
  | [] => (none, tree)
  | name :: above =>
      let path := Path.text (name :: above).reverse
      match tree.makeDirectory path with
      | .ok made => (none, made)
      | .error .missing =>
          match makeDirectories tree above with
          | (some fault, after) => (some fault, after)
          | (none, after) => settle (after.makeDirectory path) path after
      | .error fault => settle (.error fault) path tree
where
  /-- What came of an attempt: a directory that is there already will do. -/
  settle (attempt : Except Fault Tree) (path : String) (before : Tree) : Option Fault × Tree :=
    match attempt with
    | .ok made => (none, made)
    | .error fault => if before.isDirectory path then (none, before) else (some fault, before)

/-- Makes the directories of a written path. -/
def makeDirectoriesTo (tree : Tree) (text : String) : Option Fault × Tree :=
  tree.makeDirectories (tree.start text ++ (Path.steps text).filter (· != ".")).reverse

/-! ### Rewriting -/

/-- A number in hexadecimal digits, at least 32 of them. -/
def tag (n : Nat) : String :=
  let digits := (Nat.toDigits 16 n)
  String.ofList (List.replicate (32 - digits.length) '0' ++ digits)

/-- The name of a temporary file for a file of this name. -/
def temporaryName (name : String) (n : Nat) : String :=
  "." ++ name ++ "." ++ tag n ++ ".tmp"

/-- The first temporary name for a file that no entry has. -/
def freeName (tree : Tree) (name : String) : String :=
  let taken := tree.entries.filterMap fun (path, _) => path.getLast?
  match (List.range (tree.entries.length + 1)).find? fun n =>
      !taken.contains (temporaryName name n) with
  | some n => temporaryName name n
  | none => temporaryName name 0

/-- Gives a file the permissions that another has, if there is another. -/
def carryMode (tree : Tree) (source target : String) : Tree :=
  match tree.stat source with
  | .ok entry => (tree.setMode target entry.mode).toOption.getD tree
  | .error _ => tree

/-- Writes a text to a temporary file beside a file, gives it the permissions of
that file, and moves it there. If it cannot be moved the temporary file is removed. -/
def rewrite (tree : Tree) (path : Path) (content : String) : Option Fault × Tree :=
  let target := Path.text path
  let temporary := Path.text (path.dropLast ++ [tree.freeName (path.getLast?.getD "")])
  match tree.write temporary (.text content) with
  | .error fault => (some fault, tree)
  | .ok written =>
      let ready := written.carryMode target temporary
      match ready.rename temporary target with
      | .ok moved => (none, moved)
      | .error fault => (some fault, (ready.removeFile temporary).toOption.getD ready)

end Tree

end Workbench.Files
