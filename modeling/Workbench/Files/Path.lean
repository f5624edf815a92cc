/-
# Paths

A path is the list of names that lead from the root of the file system to a place.
A written path is a text: names between slashes, absolute if it starts with one.

* `Path.names` — the names of a written path; empty ones and `.` are left out.
* `Path.cancel` — names read one after the other from a place, with `..` leading
  back; none when it leads above the root.
* `Spelling` — what two written paths have in common when they count as the same.
-/

import Workbench.Text.Octets

namespace Workbench.Files

/-- A place in the file system: the names that lead to it. -/
abbrev Path := List String

namespace Path

/-- A written path starts at the root. -/
def isAbsolute (text : String) : Bool :=
  text.startsWith "/"

/-- The parts of a text between slashes. -/
def parts : List Char → List (List Char)
  | [] => [[]]
  | c :: rest =>
      match parts rest with
      | part :: others => if c = '/' then [] :: part :: others else (c :: part) :: others
      | [] => [[c]]

/-- The names of a written path. -/
def names (text : String) : List String :=
  ((parts text.toList).map String.ofList).filter fun name => name != "" && name != "."

/-- What has to be followed from directory to directory to reach a written path: its
names, and `.` at an end that has to be a directory. -/
def steps (text : String) : List String :=
  let parts := (parts text.toList).map String.ofList
  let inner := parts.filter (· != "")
  if parts.getLast? = some "" && inner != [] then inner ++ ["."] else inner

/-- The written form of a path. -/
def text (path : Path) : String :=
  "/" ++ "/".intercalate path

/-- The names below a place, read as a written path without its start. -/
def relativeText (path : Path) : String :=
  "/".intercalate path

/-- A written path, with names after it. -/
def below (base : String) (name : String) : String :=
  if name.startsWith "/" then name
  else if base.isEmpty || base.endsWith "/" then base ++ name
  else base ++ "/" ++ name

/-- Reads names from a place, last name first; none when they lead above the root. -/
def cancelFrom : List String → List String → Option (List String)
  | here, [] => some here
  | here, name :: rest =>
      if name = ".." then
        match here with
        | [] => none
        | _ :: above => cancelFrom above rest
      else cancelFrom (name :: here) rest

/-- Reads names from the root; none when they lead above it. -/
def cancel (names : List String) : Option Path :=
  (cancelFrom [] names).map List.reverse

/-- The name of an entry that is not shown. -/
def isHidden (name : String) : Bool :=
  name.startsWith "." && name != "." && name != ".."

/-- The most bytes of a name. -/
def nameLimit : Nat := 255

/-- The most bytes of a written path. -/
def textLimit : Nat := 4095

/-- What stands before and after the last dot. -/
def atLastDot? : List Char → Option (List Char × List Char)
  | [] => none
  | c :: rest =>
      match atLastDot? rest with
      | some (before, after) => some (c :: before, after)
      | none => if c = '.' then some ([], rest) else none

/-- The extension of a name: what follows its last dot, unless that is its first character. -/
def extension? (name : String) : Option String :=
  match atLastDot? name.toList with
  | some (_ :: _, after) => some (String.ofList after)
  | _ => none

/-- A text with slashes in the place of backslashes. -/
def slashes (text : String) : String :=
  String.ofList (text.toList.map fun c => if c = '\\' then '/' else c)

end Path

/-- What counts of a written path when it is compared with others: whether it is
absolute, and its names. A relative path keeps a leading `.`. -/
structure Spelling where
  absolute : Bool
  names : List String
  deriving DecidableEq, Repr

/-- What counts of a written path. -/
def Spelling.ofText (text : String) : Spelling :=
  let absolute := Path.isAbsolute text
  let here := !absolute && (text = "." || text.startsWith "./")
  ⟨absolute, (if here then ["."] else []) ++ Path.names text⟩

end Workbench.Files
