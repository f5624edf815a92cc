/-
# Sources of a project

The files of a project that are indexed: those that are not hidden and have an
extension with a known language, ordered by path.

* `sources` — the files.
* `digest` — a short digest of their paths and contents.
-/

import Workbench.Code.Language
import Workbench.Digest.Sha256
import Workbench.Files.Listing
import Workbench.Files.Access
import Workbench.Index.Fault

namespace Workbench.Index

open Workbench.Files Workbench.Code Workbench.Text Workbench.Digest

/-- A file to index: where it is, how it is named in the project, and its extension. -/
structure Source where
  place : Path
  path : String
  extension : String
  deriving DecidableEq, Repr

/-- The source that a file is, if it is one. -/
def sourceOf? (languages : Registry) (root : Path) (names : Path) (entry : Entry) :
    Option Source := do
  if !entry.isFile then none
  let extension ← Path.extension? (← names.getLast?)
  let extension := String.ofList (extension.toList.map Char.toLower)
  let _ ← languages.get? extension
  return ⟨root ++ names, Path.slashes (Path.relativeText names), extension⟩

/-- The sources of a project, ordered by path. -/
def sources (languages : Registry) (tree : Tree) (root : Path) : List Source :=
  ((tree.shown root).filterMap fun (names, entry) => sourceOf? languages root names entry).mergeSort
    fun a b => decide (a.path ≤ b.path)

/-- The text of a source. -/
def Source.read (tree : Tree) (s : Source) : Except BuildFault String :=
  (tree.readText (Path.text s.place)).mapError (.unreadable s.path)

/-- The bytes of which a digest is taken: path, zero, content, zero, one source after
the other. -/
def framed (listing : List (String × String)) : Octets :=
  listing.flatMap fun (path, content) => Octets.ofText path ++ [0] ++ Octets.ofText content ++ [0]

/-- The number of digits of a digest in a name. -/
def digestLength : Nat := 12

/-- A short digest of the paths and contents of sources. -/
def digest (tree : Tree) (files : List Source) : Except BuildFault String := do
  let listing ← files.mapM fun s => do return (s.path, ← s.read tree)
  return String.ofList
    ((Octets.toHex (Sha256.digest (framed listing))).toList.take digestLength)

end Workbench.Index
