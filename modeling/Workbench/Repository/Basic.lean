/-
# Repositories

A repository lies in a directory of its own inside the directory whose files it keeps.
There it has its objects, the name of the branch that is checked out, the commit that
each branch is at, and the staged files: those that the next commit will hold.

* `Repository.find` — the repository that a place belongs to.
* `Repository.head?` — the commit that is checked out.
* `Repository.committed`, `Repository.staged` — the files of that commit, and those of the
  next one.
-/

import Workbench.Repository.Object
import Workbench.Files.Access

namespace Workbench

open Workbench.Text Workbench.Files

/-- A repository: the directory whose files it keeps. -/
structure Repository where
  root : Path
  deriving DecidableEq, Repr

namespace Repository

/-- A file as a repository keeps it. -/
structure Kept where
  path : Path
  kind : Kind
  id : Id
  deriving DecidableEq, Repr

/-- The directory of a repository itself. -/
def folder : String := ".git"

/-- A place in the directory of the repository. -/
def inside (r : Repository) (names : List String) : Path :=
  r.root ++ folder :: names

/-- The name of the first branch. -/
def firstBranch : String := "refs/heads/main"

/-- There is a repository at a directory. -/
def isAt (tree : Tree) (root : Path) : Bool :=
  let r : Repository := ⟨root⟩
  (match tree.stat (Path.text (r.inside ["HEAD"])) with
    | .ok entry => entry.isFile
    | .error _ => false) &&
  tree.isDirectory (Path.text (r.inside ["objects"])) &&
  tree.isDirectory (Path.text (r.inside ["refs"]))

/-- The repository of the innermost directory that has one; the place is given by its
names, the last one first. -/
def findAbove (tree : Tree) : List String → Option Repository
  | [] => if isAt tree [] then some ⟨[]⟩ else none
  | name :: above =>
      if isAt tree (name :: above).reverse then some ⟨(name :: above).reverse⟩
      else findAbove tree above

/-- The repository that a place belongs to. -/
def find (tree : Tree) (place : Path) : Option Repository :=
  findAbove tree place.reverse

/-- Puts a file in the directory of the repository. -/
def putFile (r : Repository) (tree : Tree) (names : List String) (content : Content) : Tree :=
  let made := (tree.makeDirectoriesTo (Path.text (r.inside names.dropLast))).2
  made.put (r.inside names) (.file fileMode content)

/-- Makes a repository, unless there is one. -/
def create (tree : Tree) (root : Path) : Tree :=
  if isAt tree root then tree
  else
    let r : Repository := ⟨root⟩
    let made := [["objects"], ["refs", "heads"], ["refs", "tags"]].foldl (fun (tree : Tree) names =>
      (tree.makeDirectoriesTo (Path.text (r.inside names))).2) tree
    r.putFile made ["HEAD"] (.text ("ref: " ++ firstBranch ++ "\n"))

/-! ### Objects -/

/-- Where an object lies. -/
def objectNames (id : Id) : List String :=
  ["objects", String.ofList (id.toList.take 2), String.ofList (id.toList.drop 2)]

/-- The object that an id names. -/
def object? (r : Repository) (tree : Tree) (id : Id) : Option Object := do
  match tree.get? (r.inside (objectNames id)) with
  | some (.file _ content) => Object.ofOctets? content.octets
  | _ => none

/-- Keeps an object. -/
def putObject (r : Repository) (tree : Tree) (o : Object) : Tree :=
  r.putFile tree (objectNames o.id) (.ofOctets o.octets)

/-- The content that an id names. -/
def content (r : Repository) (tree : Tree) (id : Id) : Octets :=
  ((r.object? tree id).map (·.body)).getD []

/-! ### Commits -/

/-- The name of the branch that is checked out. -/
def branch (r : Repository) (tree : Tree) : String :=
  match tree.readText (Path.text (r.inside ["HEAD"])) with
  | .ok text =>
      match text.splitOn "ref: " with
      | ["", rest] => String.ofList (rest.toList.takeWhile (· != '\n'))
      | _ => ""
  | .error _ => ""

/-- The commit that is checked out; a branch may have none yet. -/
def head? (r : Repository) (tree : Tree) : Option Id :=
  match tree.readText (Path.text (r.inside ((r.branch tree).splitOn "/"))) with
  | .ok text => some (String.ofList (text.toList.takeWhile (· != '\n')))
  | .error _ => none

/-- The files of a directory in the repository, with the names that lead there. -/
def filesOf (r : Repository) (tree : Tree) : Nat → Path → Id → List Kept
  | 0, _, _ => []
  | fuel + 1, path, id =>
      (((r.object? tree id).map (·.entries)).getD []).flatMap fun e =>
        if e.kind = .directory then filesOf r tree fuel (path ++ [e.name]) e.id
        else [⟨path ++ [e.name], e.kind, e.id⟩]

/-- The files of the commit that is checked out, if there is one. -/
def committed (r : Repository) (tree : Tree) : Option (List Kept) := do
  let commit ← r.object? tree (← r.head? tree)
  return r.filesOf tree (tree.entries.length + 1) [] (← commit.directory?)

/-! ### Staged files -/

/-- Where the staged files are written down. -/
def stagedNames : List String := ["index"]

/-- How staged files are written down. -/
def stagedText (files : List Kept) : String :=
  String.join (files.map fun k =>
    k.kind.text ++ " " ++ k.id ++ " " ++ Path.relativeText k.path ++ "\x00")

/-- The file that is written down so. -/
def keptOf? (text : String) : Option Kept :=
  match text.splitOn " " with
  | kind :: id :: path => do
      return ⟨(" ".intercalate path).splitOn "/", ← Kind.ofText? kind, id⟩
  | _ => none

/-- The staged files. -/
def staged (r : Repository) (tree : Tree) : List Kept :=
  match tree.readText (Path.text (r.inside stagedNames)) with
  | .ok text => (text.splitOn "\x00").filterMap keptOf?
  | .error _ => []

/-- Writes the staged files down. -/
def stage (r : Repository) (tree : Tree) (files : List Kept) : Tree :=
  r.putFile tree stagedNames (.text (stagedText files))

/-! ### Committing -/

/-- The names of the directories that files lie in, each once. -/
def directoryNames (files : List Kept) : List String :=
  (files.filterMap fun k =>
    match k.path with
    | name :: _ :: _ => some name
    | _ => none).eraseDups

/-- Keeps the directory of files; what it is known by. -/
def putDirectory (r : Repository) : Nat → Tree → List Kept → Id × Tree
  | 0, tree, _ => ("", tree)
  | fuel + 1, tree, files =>
      let own := files.filterMap fun k =>
        match k.path with
        | [name] => some (⟨k.kind, name, k.id⟩ : Entry)
        | _ => none
      let (below, tree) := (directoryNames files).foldl (fun (entries, tree) name =>
        let (id, tree) := putDirectory r fuel tree (files.filterMap fun k =>
          match k.path with
          | first :: rest => if first = name && rest != [] then some { k with path := rest } else none
          | [] => none)
        (entries ++ [(⟨.directory, name, id⟩ : Entry)], tree)) (([] : List Entry), tree)
      let directory := Object.ofEntries (own ++ below)
      (directory.id, r.putObject tree directory)

/-- Commits the staged files; what the commit is known by. -/
def commit (r : Repository) (tree : Tree) (signature : Signature) (message : String) : Id × Tree :=
  let files := r.staged tree
  let depth := files.foldl (fun d k => max d k.path.length) 0
  let (directory, tree) := r.putDirectory (depth + 1) tree files
  let object := Object.ofCommit ⟨directory, r.head? tree, signature, message⟩
  let kept := r.putObject tree object
  (object.id, r.putFile kept ((r.branch tree).splitOn "/") (.text (object.id ++ "\n")))

end Repository

end Workbench
