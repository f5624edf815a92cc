/-
# Ignored files

A repository does not ask about files that it is told to ignore. Rules for that are
written in files beside the files that they are about; a rule of a deeper file wins over
one of a higher file, and a later rule over an earlier one. Nothing below an ignored
directory can be asked about.

* `Rule.ofLine?` — the rule that a line is.
* `Repository.ignores` — a file or directory is ignored.
-/

import Workbench.Repository.Basic
import Workbench.Text.Wildcard

namespace Workbench.Repository

open Workbench.Text Workbench.Files

/-- A rule: whether files that it fits are ignored or asked about, whether it is about
directories only, whether it is about names or about paths, and what it fits. -/
structure Rule where
  ignores : Bool
  directoriesOnly : Bool
  fromHere : Bool
  pattern : List Wildcard
  deriving DecidableEq, Repr

namespace Rule

/-- A line without the blanks at its end, as far as they are not marked as meant. -/
def trimmed (line : List Char) : List Char :=
  let rec trimBack : List Char → List Char
    | ' ' :: '\\' :: rest => ' ' :: '\\' :: rest
    | ' ' :: rest => trimBack rest
    | rest => rest
  (trimBack (line.reverse.dropWhile (· == '\r'))).reverse

/-- The rule that a line is; empty lines and comments are none. -/
def ofLine? (line : String) : Option Rule :=
  let (ignores, s) :=
    match trimmed line.toList with
    | '!' :: rest => (false, rest)
    | s => (true, s)
  let directoriesOnly := s.getLast? = some '/'
  let s := if directoriesOnly then s.dropLast else s
  match s with
  | [] => none
  | '#' :: _ => none
  | _ =>
      let fromHere := s.contains '/'
      let s := if s.head? = some '/' then s.drop 1 else s
      some ⟨ignores, directoriesOnly, fromHere, Wildcard.ofText (String.ofList s)⟩

/-- A rule fits a file or directory below where the rule is written. -/
def fits (rule : Rule) (path : Path) (isDirectory : Bool) : Bool :=
  (isDirectory || !rule.directoriesOnly) &&
    Wildcard.fits true rule.pattern
      (if rule.fromHere then Path.relativeText path else path.getLast?.getD "").toList

end Rule

/-- The rules of a file. -/
def rulesAt (tree : Tree) (path : Path) : List Rule :=
  match tree.readText (Path.text path) with
  | .ok text => (text.splitOn "\n").filterMap Rule.ofLine?
  | .error _ => []

/-- The name of a file of rules. -/
def rulesName : String := ".gitignore"

/-- What the last rule that fits says. -/
def verdict? (rules : List Rule) (path : Path) (isDirectory : Bool) : Option Bool :=
  (rules.reverse.find? (·.fits path isDirectory)).map (·.ignores)

/-- What the rules in a directory and above it say of something below it; the directory
is given by its names below the root of the repository, the last one first. -/
def verdictFrom (r : Repository) (tree : Tree) (path : Path) (isDirectory : Bool) :
    List String → Option Bool
  | [] =>
      verdict? (rulesAt tree (r.root ++ [rulesName])) path isDirectory <|>
        verdict? (rulesAt tree (r.inside ["info", "exclude"])) path isDirectory
  | name :: above =>
      let here := (name :: above).reverse
      verdict? (rulesAt tree (r.root ++ here ++ [rulesName])) (path.drop here.length) isDirectory <|>
        verdictFrom r tree path isDirectory above

/-- A file or directory is ignored, or something on the way to it; it is given by its
names below the root of the repository. -/
def ignores (r : Repository) (tree : Tree) (path : Path) (isDirectory : Bool) : Bool :=
  (List.range path.length).any fun n =>
    let part := path.take (n + 1)
    (r.verdictFrom tree part (isDirectory || n + 1 < path.length)
      part.dropLast.reverse).getD false

end Workbench.Repository
