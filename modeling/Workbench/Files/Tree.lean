/-
# File trees

A file tree holds the entries of a file system, each at its place. Finding an
entry follows symbolic links as an operating system does: name after name, each
in the directory reached so far, with a limit on the links on the way.

* `Tree.find` — the place that a path leads to, and what is there.
* `Tree.realPath` — that place itself, where the way to it can be told.
* `Fault` — why an access fails.
-/

import Workbench.Files.Path
import Workbench.Collection.Table

namespace Workbench.Files

open Workbench.Text

/-- What a file holds: a text, bytes that are no text, or a database. -/
inductive Content where
  | text (s : String)
  | raw (bytes : Octets)
  | database (table : Collection.Table)
  deriving DecidableEq, Repr

namespace Content

/-- The content that these bytes are. -/
def ofOctets (bytes : Octets) : Content :=
  match Octets.toText? bytes with
  | some s => text s
  | none => raw bytes

/-- The bytes of a content; those of a database are not told. -/
def octets : Content → Octets
  | text s => Octets.ofText s
  | raw bytes => bytes
  | database _ => []

end Content

/-- What is at a place. -/
inductive Entry where
  | file (mode : Nat) (content : Content)
  | directory (mode : Nat)
  | link (target : String)
  deriving DecidableEq, Repr

namespace Entry

/-- The entry is a directory. -/
def isDirectory : Entry → Bool
  | directory _ => true
  | _ => false

/-- The entry is a regular file. -/
def isFile : Entry → Bool
  | file _ _ => true
  | _ => false

/-- The permissions of an entry. -/
def mode : Entry → Nat
  | file mode _ => mode
  | directory mode => mode
  | link _ => 0o777

end Entry

/-- Why an access to the file system fails. -/
inductive Fault where
  | missing
  | taken
  | notDirectory
  | isDirectory
  | notEmpty
  | nameTooLong
  | tooManyLinks
  | zeroInName
  | notText
  deriving DecidableEq, Repr

/-- The wording of a fault. -/
def Fault.message : Fault → String
  | missing => "No such file or directory (os error 2)"
  | taken => "File exists (os error 17)"
  | notDirectory => "Not a directory (os error 20)"
  | isDirectory => "Is a directory (os error 21)"
  | notEmpty => "Directory not empty (os error 39)"
  | nameTooLong => "File name too long (os error 36)"
  | tooManyLinks => "Too many levels of symbolic links (os error 40)"
  | zeroInName => "file name contained an unexpected NUL byte"
  | notText => "stream did not contain valid UTF-8"

/-- The entries of a file system by their places, as seen from a directory: a written
path that is not absolute starts there. The root is a directory that has no entry. -/
structure Tree where
  entries : List (Path × Entry)
  here : Path := []
  deriving DecidableEq, Repr

/-- Permissions of a new file. -/
def fileMode : Nat := 0o644

/-- Permissions of a new directory. -/
def directoryMode : Nat := 0o755

/-- A place, and what is there. -/
structure Place where
  path : Path
  entry : Option Entry
  deriving DecidableEq, Repr

namespace Tree

/-- What is at a place. -/
def get? (tree : Tree) (path : Path) : Option Entry :=
  if path = [] then some (.directory directoryMode)
  else (tree.entries.find? (·.1 == path)).map (·.2)

/-- The entries with one at a place, instead of the one there if there is one. -/
def putIn (path : Path) (entry : Entry) : List (Path × Entry) → List (Path × Entry)
  | [] => [(path, entry)]
  | (other, old) :: rest =>
      if other = path then (path, entry) :: rest else (other, old) :: putIn path entry rest

/-- The tree with an entry at a place. -/
def put (tree : Tree) (path : Path) (entry : Entry) : Tree :=
  { tree with entries := putIn path entry tree.entries }

/-- The tree without the entry at a place. -/
def erase (tree : Tree) (path : Path) : Tree :=
  { tree with entries := tree.entries.filter (·.1 != path) }

/-- The tree without what is at or below a place. -/
def prune (tree : Tree) (path : Path) : Tree :=
  { tree with entries := tree.entries.filter fun (other, _) => !path.isPrefixOf other }

/-- What is below a place, with the names that lead there from it. -/
def below (tree : Tree) (path : Path) : List (Path × Entry) :=
  tree.entries.filterMap fun (other, entry) =>
    if path.isPrefixOf other && other != path then some (other.drop path.length, entry) else none

/-- The entries of a directory. -/
def children (tree : Tree) (path : Path) : List (String × Entry) :=
  (tree.below path).filterMap fun (names, entry) =>
    match names with
    | [name] => some (name, entry)
    | _ => none

/-- The most links on the way to a place. -/
def linkLimit : Nat := 40

/-- Follows names from a directory up to a link on the way, which `beyond` follows;
`follow` says whether a link at the end is followed as well. -/
def walkWith (tree : Tree) (follow : Bool) (beyond : Path → List String → Except Fault Place)
    (here : Path) : List String → Except Fault Place
  | [] => .ok ⟨here, tree.get? here⟩
  | name :: others =>
      if name = "." then walkWith tree follow beyond here others
      else if name = ".." then walkWith tree follow beyond here.dropLast others
      else if Path.nameLimit < name.utf8ByteSize then .error .nameTooLong
      else
        let path := here ++ [name]
        match tree.get? path with
        | none => if others = [] then .ok ⟨path, none⟩ else .error .missing
        | some (.directory _) => walkWith tree follow beyond path others
        | some (.file mode content) =>
            if others = [] then .ok ⟨path, some (.file mode content)⟩ else .error .notDirectory
        | some (.link target) =>
            if others = [] && !follow then .ok ⟨path, some (.link target)⟩
            else beyond (if Path.isAbsolute target then [] else here) (Path.steps target ++ others)

/-- Follows names from a directory; `links` is how many links may still be on the way. -/
def walk (tree : Tree) (follow : Bool) : Nat → Path → List String → Except Fault Place
  | 0 => tree.walkWith follow fun _ _ => .error .tooManyLinks
  | links + 1 => tree.walkWith follow (walk tree follow links)

/-- Where a written path starts. -/
def start (tree : Tree) (text : String) : Path :=
  if Path.isAbsolute text then [] else tree.here

/-- Finds what a written path leads to. -/
def find (tree : Tree) (follow : Bool) (text : String) : Except Fault Place :=
  if text.toList.contains '\x00' then .error .zeroInName
  else if text = "" then .error .missing
  else if Path.textLimit < text.utf8ByteSize then .error .nameTooLong
  else tree.walk follow linkLimit (tree.start text) (Path.steps text)

/-- What a written path leads to. -/
def stat (tree : Tree) (text : String) : Except Fault Entry := do
  match (← tree.find true text).entry with
  | some entry => return entry
  | none => throw .missing

/-- A written path leads to something. -/
def isThere (tree : Tree) (text : String) : Bool :=
  (tree.stat text).isOk

/-- A written path leads to a directory. -/
def isDirectory (tree : Tree) (text : String) : Bool :=
  match tree.stat text with
  | .ok entry => entry.isDirectory
  | .error _ => false

/-- The places that are looked at when names are followed from a directory, up to a link,
behind which `beyond` goes on. -/
def traceWith (tree : Tree) (beyond : Path → List String → List Path) (here : Path) :
    List String → List Path
  | [] => []
  | name :: others =>
      if name = "." then traceWith tree beyond here others
      else if name = ".." then traceWith tree beyond here.dropLast others
      else if Path.nameLimit < name.utf8ByteSize then []
      else
        let path := here ++ [name]
        path :: match tree.get? path with
          | some (.directory _) => traceWith tree beyond path others
          | some (.link target) =>
              beyond (if Path.isAbsolute target then [] else here) (Path.steps target ++ others)
          | _ => []

/-- The places that are looked at when names are followed, with as many links. -/
def trace (tree : Tree) : Nat → Path → List String → List Path
  | 0 => tree.traceWith fun _ _ => []
  | links + 1 => tree.traceWith (trace tree links)

/-- A written path leads by a place that is itself too long to be written. -/
def leadsFar (tree : Tree) (text : String) : Bool :=
  (tree.trace linkLimit (tree.start text) (Path.steps text)).any fun place =>
    Path.textLimit < (Path.text place).utf8ByteSize

/-- The place without links that a written path leads to. Every place on the way is looked
at by its own written form, so it cannot be told where a path leads far, although what it
leads to is found. -/
def realPath (tree : Tree) (text : String) : Except Fault Path := do
  if text.toList.contains '\x00' then throw .zeroInName
  if tree.leadsFar text then throw .nameTooLong
  let place ← tree.find true text
  match place.entry with
  | some _ => return place.path
  | none => throw .missing

end Tree

end Workbench.Files
