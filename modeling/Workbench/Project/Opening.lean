/-
# Opening projects

A directory becomes a project by its real place, which names it. If it belongs to a
repository, the commit that is checked out there is noted.

* `Project.opened` — the project that a directory is.
-/

import Workbench.Project.Basic
import Workbench.Repository.Basic

namespace Workbench.Project

open Workbench.Files

/-- The commit that is checked out at a place. -/
def commitAt (tree : Tree) (root : Path) : Option String := do
  let r ← Repository.find tree root
  let id ← r.head? tree
  let _ ← r.object? tree id
  return id

/-- The project that a directory is, or why it is none. -/
def opened (tree : Tree) (text : String) : Except Refusal Project :=
  match tree.realPath text with
  | .error fault => .error (.notFound text fault)
  | .ok root =>
      if tree.isDirectory (Path.text root) then .ok ⟨root, nameOf root, commitAt tree root⟩
      else .error (.notADirectory root)

end Workbench.Project
