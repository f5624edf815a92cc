/-
# Patches

The changed files of a repository as one text: for each file what it is called, what was
and is there, and its unified difference. Of a file with zero bytes only that it differs
is told.

* `Change.text` — how a changed file is written.
* `Repository.patch` — the text for all of them.
-/

import Workbench.Repository.Change
import Workbench.Text.Unified

namespace Workbench.Repository

open Workbench.Text Workbench.Files

/-! ### Quoted paths -/

/-- The letters that stand for the bytes 7 to 13 behind a backslash. -/
def escapeLetters : List Char := ['a', 'b', 't', 'n', 'v', 'f', 'r']

/-- Three octal digits. -/
def octal (b : UInt8) : String :=
  let digit (n : Nat) : Char := Char.ofNat ('0'.toNat + n)
  String.ofList [digit (b.toNat / 64), digit (b.toNat / 8 % 8), digit (b.toNat % 8)]

/-- A byte of a quoted path. -/
def quotedByte (b : UInt8) : String :=
  if 7 ≤ b && b ≤ 13 then
    "\\" ++ String.singleton ((escapeLetters[b.toNat - 7]?).getD 'a')
  else if b = 0x22 || b = 0x5C then "\\" ++ String.singleton (Char.ofNat b.toNat)
  else if 0x20 ≤ b && b ≤ 0x7E then String.singleton (Char.ofNat b.toNat)
  else "\\" ++ octal b

/-- A path is written as it is, or in quotes if it has other bytes than plain ones. -/
def quotedPath (text : String) : String :=
  let bytes := Octets.ofText text
  if bytes.all fun b => 0x20 ≤ b && b ≤ 0x7E && b != 0x22 && b != 0x5C then text
  else "\"" ++ String.join (bytes.map quotedByte) ++ "\""

/-! ### Headings -/

namespace Change

/-- A side of the change as it is called; `side` is its first letter. -/
def label (c : Change) (side : String) : String :=
  quotedPath (side ++ "/" ++ Path.relativeText c.path)

/-- What a side is called where its lines are told; no file has a name of its own. -/
def source (c : Change) (side : String) (held : Option Held) : String :=
  if held.isSome then c.label side else "/dev/null"

/-- The first digits of what a side is known by. -/
def abbreviated : Option Held → String
  | some h => String.ofList (h.id.toList.take 7)
  | none => "0000000"

/-- What becomes of the kind of the file. -/
def kindText (c : Change) : String :=
  match c.before, c.after with
  | none, some a => "new file mode " ++ a.kind.text ++ "\n"
  | some b, none => "deleted file mode " ++ b.kind.text ++ "\n"
  | some b, some a =>
      if b.kind = a.kind then ""
      else "old mode " ++ b.kind.text ++ "\nnew mode " ++ a.kind.text ++ "\n"
  | none, none => ""

/-- What the sides are known by, with the kind that both have. -/
def idText (c : Change) : String :=
  "index " ++ abbreviated c.before ++ ".." ++ abbreviated c.after ++
    (match c.before, c.after with
      | some b, some a => if b.kind = a.kind then " " ++ a.kind.text else ""
      | _, _ => "") ++ "\n"

/-- The content of a side. -/
def contentOf (held : Option Held) : Octets :=
  (held.map (·.content)).getD []

/-- A content is not shown: one of its first bytes is zero. -/
def isBinary (content : Octets) : Bool :=
  (content.take 8000).contains 0

/-- The difference of the contents. -/
def contentText (c : Change) : String :=
  let before := contentOf c.before
  let after := contentOf c.after
  let a := c.source "a" c.before
  let b := c.source "b" c.after
  if isBinary before || isBinary after then
    "Binary files " ++ a ++ " and " ++ b ++ " differ\n"
  else
    "--- " ++ a ++ "\n+++ " ++ b ++ "\n" ++
      String.join ((Unified.hunks before after).map fun h => Octets.lenient h.octets)

/-- How a changed file is written. -/
def text (c : Change) : String :=
  "diff --git " ++ c.label "a" ++ " " ++ c.label "b" ++ "\n" ++ c.kindText ++
    if c.before.isSome && c.after.isSome && contentOf c.before = contentOf c.after then ""
    else c.idText ++ c.contentText

end Change

/-- The text for all changed files, if there is a commit that they can differ from. -/
def patch (r : Repository) (tree : Tree) : Option String :=
  (r.changes tree).map fun changes => String.join (changes.map (·.text))

end Workbench.Repository
