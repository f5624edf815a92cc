/-
# Listings

What lies below a directory, leaving out hidden entries and what is below them. A
listing names entries relative to a root, directories with a slash at the end, in
order.

* `levels` — the entries down to a number of levels, counted from 1.
* `list` — the entries down to a depth, counted from 0, of which there may be only
  so many: if there are more, the depth is reduced until there are not.

A directory is read under its written path, so nothing is shown of one whose path is too
long to be written.
-/

import Workbench.Files.Tree

namespace Workbench.Files

/-- Something that a listing shows: where it is, its level below the directory
(counted from 1), and whether it is a directory. -/
structure Item where
  path : Path
  level : Nat
  isDirectory : Bool
  deriving DecidableEq, Repr

/-- A directory can be read under its written path, unless that is too long. -/
def Path.isReadable (directory : Path) : Bool :=
  (Path.text directory).utf8ByteSize ≤ Path.textLimit

/-- What lies below a directory; a link to a directory is followed only at the start. What
lies in a directory that cannot be read is passed over. -/
def Tree.under (tree : Tree) (directory : Path) : List (Path × Entry) :=
  match tree.find true (Path.text directory) with
  | .ok ⟨real, some (.directory _)⟩ =>
      (tree.below real).filter fun (names, _) => Path.isReadable (directory ++ names.dropLast)
  | _ => []

/-- What lies below a directory and is not hidden. -/
def Tree.shown (tree : Tree) (directory : Path) : List (Path × Entry) :=
  (tree.under directory).filter fun (names, _) => !names.any Path.isHidden

/-- What a listing of a directory can show. -/
def Tree.items (tree : Tree) (directory : Path) : List Item :=
  (tree.shown directory).map fun (names, entry) =>
    ⟨directory ++ names, names.length, entry.isDirectory⟩

/-- A place as it is named relative to a root; one that is not below it by its full
path. -/
def Path.relativeTo (root path : Path) : String :=
  if root.isPrefixOf path then Path.relativeText (path.drop root.length) else Path.text path

/-- How a listing names an item. -/
def Item.text (root : Path) (item : Item) : String :=
  Path.slashes (Path.relativeTo root item.path) ++ if item.isDirectory then "/" else ""

/-- Texts in ascending order. -/
def sorted (texts : List String) : List String :=
  texts.mergeSort fun a b => decide (a ≤ b)

/-- A sorted list with each text once. -/
def distinct : List String → List String
  | a :: b :: rest => if a = b then distinct (b :: rest) else a :: distinct (b :: rest)
  | texts => texts

/-- The entries of a directory down to a number of levels; there is always one level. -/
def levels (tree : Tree) (root directory : Path) (count : Nat) : List String :=
  sorted (((tree.items directory).filter fun item => item.level ≤ max count 1).map (·.text root))

/-- Why a listing does not show all that was asked for. -/
inductive Note where
  /-- Down to this depth there are few enough entries. -/
  | reduced (depth count : Nat)
  /-- Even the directory itself has too many entries; so many of them are shown. -/
  | capped (total shown : Nat)
  deriving DecidableEq, Repr

/-- The wording of a note. -/
def Note.text : Note → String
  | reduced depth count =>
      "Note: Reduced depth to " ++ toString depth ++ " with " ++ toString count ++ " entries"
  | capped total shown =>
      "Note: Limited to depth 0 with " ++ toString total ++ " entries (showing first " ++
        toString shown ++ ")"

/-- A listing. -/
structure Listing where
  note : Option Note
  entries : List String
  deriving DecidableEq, Repr

/-- The listing as a text, the note first. -/
def Listing.text (listing : Listing) : String :=
  "\n".intercalate ((listing.note.map (·.text)).toList ++ listing.entries)

/-- The entries down to a depth; without one, all of them. -/
def entriesTo (items : List Item) (root : Path) (depth : Option Nat) : List String :=
  let within (item : Item) : Bool :=
    match depth with
    | some d => item.level ≤ d + 1
    | none => true
  distinct (sorted ((items.filter within).map (·.text root)))

/-- The greatest depth, not above the given one, with few enough entries. -/
def greatestFitting (entries : Nat → List String) (limit : Nat) : Nat → Option Nat
  | 0 => if (entries 0).length ≤ limit then some 0 else none
  | d + 1 =>
      if (entries (d + 1)).length ≤ limit then some (d + 1) else greatestFitting entries limit d

/-- The depth of the deepest item. -/
def deepest (items : List Item) : Nat :=
  items.foldl (fun d item => max d (item.level - 1)) 0

/-- The listing of what was come by below a directory. -/
def listOf (items : List Item) (root : Path) (depth : Option Nat) (limit : Nat) : Listing :=
  let all := entriesTo items root depth
  if all.length ≤ limit then ⟨none, all⟩
  else
    let entries (d : Nat) := entriesTo items root (some d)
    let start := min (depth.getD (deepest items)) (deepest items)
    match greatestFitting entries limit start with
    | some d => ⟨some (.reduced d (entries d).length), entries d⟩
    | none =>
        let total := entries 0
        ⟨some (.capped total.length (total.take limit).length), total.take limit⟩

/-- Lists a directory. -/
def list (tree : Tree) (root directory : Path) (depth : Option Nat) (limit : Nat) : Listing :=
  listOf (tree.items directory) root depth limit

end Workbench.Files
