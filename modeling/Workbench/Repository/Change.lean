/-
# Changed files

How the files of a directory differ from those of the commit that is checked out. Files
that are neither committed nor staged count as new unless they are ignored; a file that
is committed but no longer staged counts as gone, whatever is in its place.

* `Repository.stageAll` — stages the files as they are.
* `Repository.changes` — the changed files, by path.
-/

import Workbench.Repository.Ignore

namespace Workbench.Repository

open Workbench.Text Workbench.Files

/-- A file with its content. -/
structure Held where
  kind : Kind
  content : Octets
  deriving DecidableEq, Repr

/-- What a file is known by. -/
def Held.id (h : Held) : Id :=
  (Object.ofContent h.content).id

/-- What is kept of an entry of a file tree; nothing of a directory. -/
def Held.ofEntry? : Files.Entry → Option Held
  | .file mode content =>
      some ⟨if mode &&& 0o100 = 0 then .file else .program, content.octets⟩
  | .link target => some ⟨.link, Octets.ofText target⟩
  | .directory _ => none

/-- A file that has changed: what it was, and what it is. -/
structure Change where
  path : Path
  before : Option Held
  after : Option Held
  deriving DecidableEq, Repr

/-- The files of the directory, with their names below its root. -/
def present (r : Repository) (tree : Tree) : List (Path × Held) :=
  (tree.below r.root).filterMap fun (path, entry) =>
    if path.contains folder then none else (Held.ofEntry? entry).map (path, ·)

/-- A file is staged. -/
def isStaged (files : List Kept) (path : Path) : Bool :=
  files.any (·.path == path)

/-- Stages the files as they are; ignored ones only if they are staged already. -/
def stageAll (r : Repository) (tree : Tree) : Tree :=
  let staged := r.staged tree
  let (files, tree) := (r.present tree).foldl (fun (files, tree) (path, held) =>
    if isStaged staged path || !r.ignores tree path false then
      (files ++ [(⟨path, held.kind, held.id⟩ : Kept)],
        r.putObject tree (Object.ofContent held.content))
    else (files, tree)) (([] : List Kept), tree)
  r.stage tree files

/-- The change of a file; one whose kind is another than before goes and comes. -/
def change (path : Path) (before after : Option Held) : List Change :=
  match before, after with
  | some b, some a =>
      if b = a then []
      else if b.kind = .link ∨ a.kind = .link then
        if b.kind = a.kind then [⟨path, before, after⟩]
        else [⟨path, before, none⟩, ⟨path, none, after⟩]
      else [⟨path, before, after⟩]
  | none, none => []
  | _, _ => [⟨path, before, after⟩]

/-- The changed files, by path, if there is a commit that they can differ from. -/
def changes (r : Repository) (tree : Tree) : Option (List Change) := do
  let committed ← r.committed tree
  let staged := r.staged tree
  let present := r.present tree
  let paths := committed.map (·.path) ++ staged.map (·.path) ++
    (present.map (·.1)).filter fun path => !r.ignores tree path false
  let ordered := (paths.mergeSort fun a b =>
    decide (Path.relativeText a ≤ Path.relativeText b)).eraseDups
  return ordered.flatMap fun path =>
    let before := (committed.find? (·.path == path)).map fun k =>
      (⟨k.kind, r.content tree k.id⟩ : Held)
    let after := if before.isSome && !isStaged staged path then none
      else (present.find? (·.1 == path)).map (·.2)
    change path before after

end Workbench.Repository
