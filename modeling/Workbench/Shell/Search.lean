/-
# Searching directories

`find` goes through directories and shows what passes tests. Tests are joined: one after
another both have to be passed, and with `-o` between them one of the two.

* `find` — the utility.
-/

import Workbench.Shell.Utility
import Workbench.Text.Wildcard

namespace Workbench.Shell

open Workbench.Text Workbench.Files

/-- What is found. -/
structure Found where
  path : String
  name : String
  entry : Entry
  /-- Nothing is in it. -/
  isEmpty : Bool

/-- A test of what is found. -/
inductive Search where
  | any
  | name (pattern : List Wildcard)
  | path (pattern : List Wildcard)
  | kind (letter : String)
  | empty
  | not (search : Search)
  | both (first second : Search)
  | either (first second : Search)
  deriving Repr

namespace Search

/-- Something passes a test. -/
def holds : Search → Found → Bool
  | any, _ => true
  | name pattern, f => Wildcard.fits false pattern f.name.toList
  | path pattern, f => Wildcard.fits false pattern f.path.toList
  | kind letter, f =>
      match letter with
      | "f" => f.entry.isFile
      | "d" => f.entry.isDirectory
      | _ => !f.entry.isFile && !f.entry.isDirectory
  | empty, f => f.isEmpty
  | not s, f => !s.holds f
  | both a b, f => a.holds f && b.holds f
  | either a b, f => a.holds f || b.holds f

mutual

/-- Reads tests of which one has to be passed. -/
def readEither : Nat → List String → Option (Search × List String)
  | 0, _ => none
  | fuel + 1, words => do
      let (a, rest) ← readBoth fuel words
      match rest with
      | "-o" :: rest =>
          let (b, rest) ← readEither fuel rest
          return (either a b, rest)
      | _ => return (a, rest)

/-- Reads tests that all have to be passed. -/
def readBoth : Nat → List String → Option (Search × List String)
  | 0, _ => none
  | fuel + 1, words => do
      match words with
      | [] => return (any, [])
      | "-o" :: _ => return (any, words)
      | ")" :: _ => return (any, words)
      | "-a" :: rest => readBoth fuel rest
      | _ => do
          let (a, rest) ← readOne fuel words
          let (b, rest) ← readBoth fuel rest
          return (both a b, rest)

/-- Reads one test. -/
def readOne : Nat → List String → Option (Search × List String)
  | 0, _ => none
  | fuel + 1, words => do
      let negated (rest : List String) : Option (Search × List String) := do
        let (s, rest) ← readOne fuel rest
        return (not s, rest)
      match words with
      | "!" :: rest => negated rest
      | "-not" :: rest => negated rest
      | "(" :: rest =>
          match ← readEither fuel rest with
          | (s, ")" :: rest) => return (s, rest)
          | _ => none
      | "-name" :: p :: rest => return (name (Wildcard.ofText p), rest)
      | "-iname" :: p :: rest => return (name (Wildcard.ofText p), rest)
      | "-path" :: p :: rest => return (path (Wildcard.ofText p), rest)
      | "-type" :: k :: rest => return (kind k, rest)
      | "-empty" :: rest => return (empty, rest)
      | "-maxdepth" :: _ :: rest => return (any, rest)
      | "-mindepth" :: _ :: rest => return (any, rest)
      | "-print" :: rest => return (any, rest)
      | "-print0" :: rest => return (any, rest)
      | "-delete" :: rest => return (any, rest)
      | _ => none

end

end Search

/-- Finds files and directories at and below paths. -/
def find : Utility := fun g =>
  let isTest (a : String) : Bool := a.startsWith "-" || a = "!" || a = "("
  let paths := g.arguments.takeWhile fun a => !isTest a
  let tests := g.arguments.drop paths.length
  let depth? (key : String) : Option Nat := ((tests.dropWhile (· != key))[1]?).bind String.toNat?
  match Search.readEither (4 * tests.length + 4) tests with
  | some (search, []) =>
      let found (path : String) : Except Files.Fault (List Found) := do
        let place ← g.tree.find false (pathOf path)
        match place.entry with
        | none => throw .missing
        | some entry =>
            let isEmpty (at_ : Path) : Entry → Bool
              | .file _ content => content.octets = []
              | .directory _ => g.tree.children at_ = []
              | .link _ => false
            let start := if path.endsWith "/" then path else path ++ "/"
            let below := (g.tree.below place.path).filterMap fun (names, entry) =>
              if ((depth? "-maxdepth").map fun n => decide (names.length ≤ n)).getD true &&
                  ((depth? "-mindepth").map fun n => decide (n ≤ names.length)).getD true then
                some ⟨start ++ seen (Path.relativeText names), seen (names.getLast?.getD ""), entry,
                  isEmpty (place.path ++ names) entry⟩
              else none
            let own : List Found :=
              if 0 < (depth? "-mindepth").getD 0 then []
              else [⟨path, (path.splitOn "/").getLast?.getD path, entry, isEmpty place.path entry⟩]
            return (own ++ below.mergeSort fun (a b : Found) => decide (a.path ≤ b.path)).filter search.holds
      let results := (if paths = [] then ["."] else paths).map fun path => (path, found path)
      let all := results.flatMap fun (_, r) => r.toOption.getD []
      let isQuiet := tests.contains "-delete"
      let mark := if tests.contains "-print0" then "\x00" else "\n"
      let written := results.map fun (path, r) =>
        match r with
        | .ok found => (false, if isQuiet then "" else String.join (found.map (·.path ++ mark)))
        | .error fault => (true, "find: '" ++ path ++ "': " ++ faultText fault ++ "\n")
      let tree := if isQuiet then
          all.reverse.foldl (fun (tree : Tree) f =>
            ((if f.entry.isDirectory then tree.removeDirectory (pathOf f.path)
              else tree.removeFile (pathOf f.path)).toOption).getD tree) g.tree
        else g.tree
      { written, status := if results.any fun (_, r) => !r.isOk then 1 else 0, tree }
  | some (_, word :: _) => g.fails ("paths must precede expression: \x60" ++ word ++ "'") 1
  | _ => g.fails ("unknown predicate \x60" ++ (tests.find? fun a => a.startsWith "-").getD "" ++ "'") 1

end Workbench.Shell
