/-
# Projects

A project is a directory that everything works on. A path given by a caller is
resolved against it, and must stay inside: after `.` and `..` are read away, and, where
it can be told, also after the links on the way are followed.

* `Project.resolve` — the place that a written path names.
* `Project.relative`, `Project.relativeTo` — how an answer names a place.
-/

import Workbench.Chain
import Workbench.Files.Listing

namespace Workbench

open Workbench.Files

/-- A directory to work on. -/
structure Project where
  root : Path
  name : String
  /-- The commit that was checked out when the project was opened. -/
  commit : Option String
  deriving DecidableEq, Repr

/-- A path leads out of a project. -/
structure Escape where
  path : String
  root : Path
  deriving DecidableEq, Repr

/-- The wording of an escape. -/
def Escape.message (e : Escape) : String :=
  "path '" ++ e.path ++ "' resolves outside the project root " ++ Path.text e.root

/-- The deepest directory or file on the way to a place that is there. Both are given by
their names, the last one first. -/
def Files.Tree.anchor (tree : Tree) : List String → List String
  | [] => []
  | name :: above =>
      if tree.isThere (Path.text (name :: above).reverse) then name :: above else tree.anchor above

namespace Project

/-- The name of a project with this root. -/
def nameOf (root : Path) : String :=
  root.getLast?.getD "project"

/-- The names that a written path stands for. -/
def namesOf (project : Project) (text : String) : List String :=
  if Path.isAbsolute text then Path.names text else project.root ++ Path.names text

/-- The place that a written path names, if it is inside the project. The deepest part of
it that is there must really lie inside, if it can be told where that lies. -/
def resolve (project : Project) (tree : Tree) (text : String) : Except Escape Path :=
  match Path.cancel (project.namesOf text) with
  | none => .error ⟨text, project.root⟩
  | some path =>
      if !project.root.isPrefixOf path then .error ⟨text, project.root⟩
      else match tree.realPath (Path.text (tree.anchor path.reverse).reverse) with
        | .ok real =>
            if project.root.isPrefixOf real then .ok path else .error ⟨text, project.root⟩
        | .error _ => .ok path

/-- How an answer names a place. -/
def relative (project : Project) (path : Path) : String :=
  if path = project.root then "." else Path.slashes (Path.relativeTo project.root path)

/-- Why a directory is no project. -/
inductive Refusal where
  | notFound (path : String) (fault : Files.Fault)
  | notADirectory (root : Path)
  deriving DecidableEq, Repr

/-- Why a directory is no project, with the reasons. -/
def Refusal.chain : Refusal → Chain
  | notFound path fault => ["Project directory not found: " ++ path, fault.message]
  | notADirectory root => ["Project root is not a directory: " ++ Path.text root]

/-- The parts of a written path below a place, if it leads there; parts that stand for
the same place are left out before and after them. -/
def partsBelow (root : Path) (parts : List String) : Option (List String) :=
  let isIdle (part : String) : Bool := part = "" || part = "."
  match root, parts.dropWhile isIdle with
  | [], rest => some (rest.reverse.dropWhile isIdle).reverse
  | name :: below, part :: rest => if part = name then partsBelow below rest else none
  | _ :: _, [] => none

/-- How an answer names the place of a written path; one that is not in the project it
names as it is written. -/
def relativeTo (project : Project) (text : String) : String :=
  let parts := (Path.parts text.toList).map String.ofList
  match if Path.isAbsolute text then partsBelow project.root parts else none with
  | some [] => "."
  | some below => Path.slashes ("/".intercalate below)
  | none => text

end Project

end Workbench
