/-
# Locations of collections

Collections lie side by side in one directory. The name of a collection there is
made from what the user calls it and from the name of the project; it may end in a
digest of the project's sources, and while it is being built in a mark that says so.

* `keyName` — the name of a collection.
* `belongsTo` — which names a collection can have.
-/

import Workbench.Index.Source
import Workbench.Project.Basic

namespace Workbench.Index

open Workbench.Files

/-- What the name of a collection that is being built ends in. -/
def stagingMark : String := ".partial"

/-- The name of the collection of a project. -/
def keyName (project : Path) (collection : String) : String :=
  collection ++ "_" ++ Project.nameOf project

/-- Where a collection lies, as written. -/
def location (runtimeDir : String) (project : Path) (collection : String)
    (digest : Option String) : String :=
  let base := keyName project collection
  Path.below runtimeDir (match digest with
    | some d => base ++ "_" ++ d
    | none => base)

/-- Where a collection is built before it is put in its place. -/
def staging (location : String) : String :=
  location ++ stagingMark

/-- A hexadecimal digit of either case. -/
def isHexDigit (c : Char) : Bool :=
  ('0' ≤ c && c ≤ '9') || ('a' ≤ c && c ≤ 'f') || ('A' ≤ c && c ≤ 'F')

/-- What is left of a text without a given end, if it has that end. -/
def withoutEnd? (s ending : List Char) : Option (List Char) :=
  if ending.isSuffixOf s then some (s.take (s.length - ending.length)) else none

/-- A name is one that a collection can have: its base, perhaps with a digest, perhaps
being built. -/
def belongsTo (name base : String) : Bool :=
  let core := (withoutEnd? name.toList stagingMark.toList).getD name.toList
  core == base.toList ||
    (base.toList ++ ['_']).isPrefixOf core &&
      (let digest := core.drop (base.length + 1)
       digest.length == digestLength && digest.all isHexDigit)

end Workbench.Index
