/-
# Patches of projects

What has been changed in a project since the commit that is checked out, as a patch, and
patches saved in files named for the project and the time.

* `Project.patch` — the patch.
* `Project.savePatch` — writes it to a file.
-/

import Workbench.Project.Basic
import Workbench.Repository.Patch

namespace Workbench.Project

open Workbench.Files

/-- Why there is no patch, or none in a file. -/
inductive PatchFault where
  | noRepository (root : Path)
  | noCommit (branch : String)
  | directory (path : String) (fault : Files.Fault)
  | file (path : String) (fault : Files.Fault)
  deriving DecidableEq, Repr

/-- The wording of a fault, with the reasons. -/
def PatchFault.chain : PatchFault → Chain
  | noRepository root =>
      ["Not a git repository: " ++ Path.text root,
        "could not find repository at '" ++ Path.text root ++
          "'; class=Repository (6); code=NotFound (-3)"]
  | noCommit branch =>
      ["Failed to read HEAD tree",
        "reference '" ++ branch ++ "' not found; class=Reference (4); code=UnbornBranch (-9)"]
  | directory path fault => ["Failed to create patch directory: " ++ path, fault.message]
  | file path fault => ["Failed to write patch: " ++ path, fault.message]

/-- What has been changed since the commit that is checked out. -/
def patch (project : Project) (tree : Tree) : Except PatchFault String :=
  match Repository.find tree project.root with
  | none => .error (.noRepository project.root)
  | some r =>
      match r.patch tree with
      | some patch => .ok patch
      | none => .error (.noCommit (r.branch tree))

/-- The name of a saved patch. -/
def patchFileName (project : String) (seconds : Nat) : String :=
  String.ofList (project.toList.map fun c => if c = '/' || c = '\\' then '+' else c) ++
    "@" ++ toString seconds ++ ".patch"

/-- Writes the patch to a file in a directory: where the file is, and the patch. -/
def savePatch (project : Project) (tree : Tree) (directory : String) (seconds : Nat) :
    Except PatchFault (String × String) × Tree :=
  match project.patch tree with
  | .error fault => (.error fault, tree)
  | .ok patch =>
      match tree.makeDirectoriesTo directory with
      | (some fault, tree) => (.error (.directory directory fault), tree)
      | (none, tree) =>
          let path := Path.below directory (patchFileName project.name seconds)
          match tree.write path (.text patch) with
          | .error fault => (.error (.file path fault), tree)
          | .ok tree => (.ok (path, patch), tree)

end Workbench.Project
