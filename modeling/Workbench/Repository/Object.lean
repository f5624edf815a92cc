/-
# Objects of a repository

A repository keeps file contents, directories and commits. Each is known by the digest of
its bytes, so that a commit fixes everything below it.

* `Object.id` — what an object is known by.
* `Object.ofOctets?` — the object that bytes are.
-/

import Workbench.Digest.Sha1

namespace Workbench.Repository

open Workbench.Text

/-- What an object is known by: the digits of a digest. -/
abbrev Id := String

/-- What an entry of a directory is. -/
inductive Kind where
  | file
  | program
  | link
  | directory
  deriving DecidableEq, Repr

/-- How a kind is written. -/
def Kind.text : Kind → String
  | file => "100644"
  | program => "100755"
  | link => "120000"
  | directory => "40000"

/-- The kind that is written so. -/
def Kind.ofText? (text : String) : Option Kind :=
  [file, program, link, directory].find? (·.text == text)

/-- An entry of a directory. -/
structure Entry where
  kind : Kind
  name : String
  id : Id
  deriving DecidableEq, Repr

/-- Who made a commit, and when. -/
structure Signature where
  name : String
  email : String
  seconds : Nat
  deriving DecidableEq, Repr

/-- How a signature is written. -/
def Signature.text (s : Signature) : String :=
  s.name ++ " <" ++ s.email ++ "> " ++ toString s.seconds ++ " +0000"

/-- A state of all files, what it was before, and what is said of it. -/
structure Commit where
  directory : Id
  parent : Option Id
  signature : Signature
  message : String
  deriving DecidableEq, Repr

/-- How a commit is written. -/
def Commit.text (c : Commit) : String :=
  "tree " ++ c.directory ++ "\n" ++
    (match c.parent with
      | some id => "parent " ++ id ++ "\n"
      | none => "") ++
    "author " ++ c.signature.text ++ "\n" ++
    "committer " ++ c.signature.text ++ "\n\n" ++ c.message

/-- The bytes of an object: what it is, how long, and what is in it. -/
structure Object where
  label : String
  body : Octets
  deriving DecidableEq, Repr

namespace Object

/-- All bytes of an object. -/
def octets (o : Object) : Octets :=
  Octets.ofText (o.label ++ " " ++ toString o.body.length) ++ 0 :: o.body

/-- What an object is known by. -/
def id (o : Object) : Id :=
  Octets.toHex (Digest.Sha1.digest o.octets)

/-- The object that holds the content of a file. -/
def ofContent (content : Octets) : Object :=
  ⟨"blob", content⟩

/-- What a directory is ordered by: the name, with a slash if it is one of a directory. -/
def orderKey (e : Entry) : String :=
  if e.kind = .directory then e.name ++ "/" else e.name

/-- How an entry of a directory is written. -/
def entryOctets (e : Entry) : Octets :=
  Octets.ofText (e.kind.text ++ " " ++ e.name) ++ 0 :: (Octets.ofHex? e.id).getD []

/-- The object that holds the entries of a directory. -/
def ofEntries (entries : List Entry) : Object :=
  ⟨"tree", (entries.mergeSort fun a b => decide (orderKey a ≤ orderKey b)).flatMap entryOctets⟩

/-- The object that holds a commit. -/
def ofCommit (c : Commit) : Object :=
  ⟨"commit", Octets.ofText c.text⟩

/-- The object that bytes are. -/
def ofOctets? (bytes : Octets) : Option Object := do
  let heading ← Octets.toText? (bytes.takeWhile (· != 0))
  let label ← (heading.splitOn " ").head?
  return ⟨label, (bytes.dropWhile (· != 0)).drop 1⟩

/-- The entries of a directory that bytes hold. -/
def entriesFrom : Nat → Octets → List Entry
  | 0, _ => []
  | _, [] => []
  | fuel + 1, bytes =>
      let heading := (Octets.toText? (bytes.takeWhile (· != 0))).getD ""
      let rest := (bytes.dropWhile (· != 0)).drop 1
      match heading.splitOn " " with
      | mode :: name =>
          match Kind.ofText? mode with
          | some kind =>
              ⟨kind, " ".intercalate name, Octets.toHex (rest.take 20)⟩ ::
                entriesFrom fuel (rest.drop 20)
          | none => []
      | [] => []

/-- The entries of a directory that an object holds. -/
def entries (o : Object) : List Entry :=
  if o.label = "tree" then entriesFrom o.body.length o.body else []

/-- The directory that a commit in an object fixes. -/
def directory? (o : Object) : Option Id := do
  if o.label != "commit" then none
  match ((Octets.lenient o.body).splitOn "\n").head?.map (·.splitOn " ") with
  | some ["tree", id] => some id
  | _ => none

end Object

end Workbench.Repository
