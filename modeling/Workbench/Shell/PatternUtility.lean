/-
# Utilities for patterns

What finds and changes lines by regular expressions: `grep` shows lines that fit one, and
`sed` runs a small program on every line.
-/

import Workbench.Shell.Utility
import Workbench.Text.Regex
import Workbench.Text.Wildcard

namespace Workbench.Shell

open Workbench.Text Workbench.Files

/-! ### Finding lines -/

/-- Where an expression fits in a text, from a place on. -/
def fitsFrom (r : Regex) (ignoreCase : Bool) (s : Array Char) : Nat → Nat → List (Nat × Nat)
  | 0, _ => []
  | fuel + 1, i =>
      match r.find? ignoreCase s i with
      | some (a, b, _) => (a, b) :: fitsFrom r ignoreCase s fuel (if b = a then b + 1 else b)
      | none => []

/-- The files at and below a path. -/
def filesBelow (tree : Tree) (path : String) : List String :=
  match tree.find true (pathOf path) with
  | .ok ⟨place, some (.directory _)⟩ =>
      let names := (tree.below place).filterMap fun (names, entry) =>
        if entry.isFile then some (path ++ "/" ++ seen (Path.relativeText names)) else none
      names.mergeSort fun a b => decide (a ≤ b)
  | _ => [path]

/-- Shows the lines that fit an expression. -/
def grep : Utility := fun g =>
  let o := Options.read ["e", "A", "B", "C", "m"] g.arguments
  let (patterns, paths) := match (o.given.filter (·.1 == "e")).map (·.2), o.operands with
    | [], pattern :: rest => ([pattern], rest)
    | patterns, rest => (patterns, rest)
  let isExtended := o.has ["E", "P"] || g.name = "egrep"
  let one (text : String) : Option Regex :=
    if o.has ["F"] || g.name = "fgrep" then some (Regex.literal text) else Regex.ofText? isExtended text
  let ignoreCase := o.has ["i", "ignore-case"]
  let around (r : Regex) : Regex :=
    if o.has ["x"] then .inOrder .atStart (.inOrder r .atEnd)
    else if o.has ["w"] then .inOrder .wordEdge (.inOrder r .wordEdge)
    else r
  match (patterns.flatMap (·.splitOn "\n")).mapM one with
  | none => g.fails "Invalid regular expression" 2
  | some [] =>
      { g.tells "" with
        written := [(true, "Usage: grep [OPTION]... PATTERNS [FILE]...\nTry 'grep --help' for more information.\n")]
        status := 2 }
  | some (r :: rs) =>
      let r := around (rs.foldl Regex.either r)
      let isRecursive := o.has ["r", "R"]
      let names := (o.given.filter (·.1 == "include")).map fun (_, pattern) => Wildcard.ofText pattern
      let isWanted (path : String) : Bool :=
        let name := (path.splitOn "/").getLast?.getD path
        names = [] || names.any fun pattern => Wildcard.fits true pattern name.toList
      let paths := if isRecursive then
          (if paths = [] then (filesBelow g.tree ".").map fun path => String.ofList (path.toList.drop 2)
            else paths.flatMap (filesBelow g.tree)).filter isWanted
        else paths
      let isNamed := (1 < paths.length || isRecursive || o.has ["H"]) && !o.has ["h"]
      let start (name : String) : String := if isNamed then name ++ ":" else ""
      let hits (text : String) : List (String × Nat) :=
        let found := (linesOf text).zipIdx.filter fun (line, _) =>
          (r.find? ignoreCase line.toList.toArray 0).isSome != o.has ["v"]
        match o.number? ["m"] with
        | some n => found.take n
        | none => found
      let around := (o.number? ["C"]).getD 0
      let before := (o.number? ["B"]).getD around
      let after := (o.number? ["A"]).getD around
      let show_ (name : String) (line : String) (i : Nat) : List String :=
        let start := start name ++ if o.has ["n"] then toString (i + 1) ++ ":" else ""
        if o.has ["o"] then
          let s := line.toList.toArray
          (fitsFrom r ignoreCase s (s.size + 1) 0).filterMap fun (a, b) =>
            if a = b then none else some (start ++ String.ofList (s.extract a b).toList)
        else [start ++ line]
      let done := g.onEach paths plainComplaint fun name text =>
        let found := hits text
        if o.has ["q"] then ""
        else if o.has ["l"] then if found = [] then "" else name ++ "\n"
        else if o.has ["L"] then if found = [] then name ++ "\n" else ""
        else if o.has ["c"] then start name ++ toString found.length ++ "\n"
        else if before + after = 0 || o.has ["o"] then ofLines (found.flatMap fun (line, i) => show_ name line i)
        else
          let lines := (linesOf text).zipIdx
          let isNear (i : Nat) : Bool := found.any fun (_, j) => j ≤ i + before && i ≤ j + after
          let shown := lines.filter fun (_, i) => isNear i
          let apart (i : Nat) : List String :=
            if i != 0 && !isNear (i - 1) && shown.any fun (_, j) => j < i then ["--"] else []
          ofLines (shown.flatMap fun (line, i) =>
            let mark := if found.any fun (_, j) => j = i then ":" else "-"
            apart i ++ [(if isNamed then name ++ mark else "") ++
              (if o.has ["n"] then toString (i + 1) ++ mark else "") ++ line])
      let isFound := (g.inputs paths).any fun (_, c) => match c with
        | .ok text => hits text != []
        | .error _ => false
      { done with
        written := if o.has ["s"] then done.written.filter fun w => !w.1 else done.written
        status := if done.status != 0 && !(isFound && o.has ["q"]) then 2
          else if isFound then 0 else 1 }

/-! ### Programs for lines -/

/-- Which lines a command is for. -/
inductive Address where
  | number (n : Nat)
  | last
  | fits (r : Regex)
  deriving Repr

/-- What is done to a line. -/
inductive Edit where
  | remove
  | print
  | finish
  | number
  | above (text : String)
  | below (text : String)
  | instead (text : String)
  | exchange (a b : List Char)
  | replace (r : Regex) (new : List Char) (isAll ignoreCase isPrinted : Bool) (which : Nat)
  deriving Repr

/-- A command of a program: for which lines it is, perhaps for all others, and what it
does. -/
structure EditCommand where
  first : Option Address := none
  last : Option Address := none
  isNegated : Bool := false
  edit : Edit
  deriving Repr

/-- The text up to a mark, and what follows it; a backslash keeps the mark. -/
def untilMark (mark : Char) : List Char → Option (List Char × List Char)
  | [] => none
  | '\\' :: c :: rest =>
      (untilMark mark rest).map fun (a, b) => (if c = mark then c :: a else '\\' :: c :: a, b)
  | c :: rest => if c = mark then some ([], rest) else (untilMark mark rest).map fun (a, b) => (c :: a, b)

/-- Reads an address. -/
def addressOf (isExtended : Bool) : List Char → Option (Address × List Char)
  | '$' :: rest => some (.last, rest)
  | '/' :: rest => do
      let (text, rest) ← untilMark '/' rest
      return (.fits (← Regex.ofText? isExtended (String.ofList text)), rest)
  | s =>
      let digits := s.takeWhile Char.isDigit
      (String.ofList digits).toNat?.map fun n => (.number n, s.drop digits.length)

/-- The text of a command that adds lines. -/
def addedText (s : List Char) : List Char × List Char :=
  let s := s.dropWhile (· == ' ')
  let s := match s with
    | '\\' :: '\n' :: rest => rest
    | '\\' :: rest => rest
    | rest => rest
  (s.takeWhile (· != '\n'), s.dropWhile (· != '\n'))

/-- Reads what is done to a line. -/
def editOf (isExtended : Bool) : List Char → Option (Edit × List Char)
  | 'd' :: s => some (.remove, s)
  | 'p' :: s => some (.print, s)
  | 'q' :: s => some (.finish, s)
  | '=' :: s => some (.number, s)
  | 'i' :: s => let (t, s) := addedText s; some (.above (String.ofList t), s)
  | 'a' :: s => let (t, s) := addedText s; some (.below (String.ofList t), s)
  | 'c' :: s => let (t, s) := addedText s; some (.instead (String.ofList t), s)
  | 'y' :: mark :: s => do
      let (a, s) ← untilMark mark s
      let (b, s) ← untilMark mark s
      if a.length = b.length then return (.exchange a b, s) else none
  | 's' :: mark :: s => do
      let (old, s) ← untilMark mark s
      let (new, s) ← untilMark mark s
      let flags := s.takeWhile fun c => c.isAlphanum
      let r ← Regex.ofText? isExtended (String.ofList old)
      return (.replace r new (flags.contains 'g') (flags.contains 'i' || flags.contains 'I')
        (flags.contains 'p') ((String.ofList (flags.filter Char.isDigit)).toNat?.getD 1), s.drop flags.length)
  | _ => none

/-- Reads a program. -/
def programOf (isExtended : Bool) : Nat → List Char → Option (List EditCommand)
  | 0, _ => none
  | fuel + 1, s => do
      let isGap (c : Char) : Bool := c == ' ' || c == ';' || c == '\n' || c == '\t'
      let s := s.dropWhile isGap
      if s = [] then return []
      let (first, s) : Option Address × List Char := match addressOf isExtended s with
        | some (a, s) => (some a, s)
        | none => (none, s)
      let (last, s) ← match s with
        | ',' :: rest => (addressOf isExtended rest).map fun (a, s) => (some a, s)
        | s => some (none, s)
      let (isNegated, s) := match s.dropWhile (· == ' ') with
        | '!' :: rest => (true, rest)
        | s => (false, s)
      let (edit, s) ← editOf isExtended (s.dropWhile (· == ' '))
      let s := s.dropWhile (· == ' ')
      if s != [] && !(s.head?.map isGap).getD false then none
      return ⟨first, last, isNegated, edit⟩ :: (← programOf isExtended fuel s)

/-- What is put in the place of what fits. -/
def replacement (s : Array Char) (a b : Nat) (groups : Regex.Groups) : List Char → List Char
  | '\\' :: c :: rest =>
      let text :=
        if c.isDigit then
          match if c = '0' then some (a, b) else groups.lookup (c.toNat - '0'.toNat) with
          | some (i, j) => (s.extract i j).toList
          | none => []
        else if c = 'n' then ['\n'] else if c = 't' then ['\t'] else [c]
      text ++ replacement s a b groups rest
  | '&' :: rest => (s.extract a b).toList ++ replacement s a b groups rest
  | c :: rest => c :: replacement s a b groups rest
  | [] => []

/-- A line with other text in the place of what fits, and whether anything fits. -/
def replaced (r : Regex) (new : List Char) (isAll ignoreCase : Bool) (which : Nat) (s : Array Char) :
    Nat → Nat → Nat → List Char × Bool
  | 0, i, _ => ((s.extract i s.size).toList, false)
  | fuel + 1, i, n =>
      match r.find? ignoreCase s i with
      | none => ((s.extract i s.size).toList, false)
      | some (a, b, groups) =>
          let before := (s.extract i a).toList
          let isHit := n = which || (isAll && which < n)
          let text := if isHit then replacement s a b groups new else (s.extract a b).toList
          if isHit && !isAll then (before ++ text ++ (s.extract b s.size).toList, true)
          else
            let skipped := if a = b then (s.extract b (b + 1)).toList else []
            let next := if a = b then b + 1 else b
            if s.size < next then (before ++ text ++ skipped, isHit)
            else
              let (rest, isHit') := replaced r new isAll ignoreCase which s fuel next (n + 1)
              (before ++ text ++ skipped ++ rest, isHit || isHit')

/-- What a program has done on a line: what is shown before it and after it, the line
unless it is removed, and whether the program is finished. -/
structure Edited where
  shown : List String := []
  line : Option String
  later : List String := []
  isFinished : Bool := false

/-- A line is one that an address names. -/
def Address.names (a : Address) (line : String) (n total : Nat) : Bool :=
  match a with
  | number k => k = n
  | last => n = total
  | fits r => (r.find? false line.toList.toArray 0).isSome

/-- Does to a line what an edit does. -/
def Edit.apply (e : Edit) (n : Nat) (d : Edited) (line : String) : Edited :=
  match e with
  | remove => { d with line := none }
  | print => { d with shown := d.shown ++ [line] }
  | finish => { d with isFinished := true }
  | number => { d with shown := d.shown ++ [toString n] }
  | above text => { d with shown := d.shown ++ [text] }
  | below text => { d with later := d.later ++ [text] }
  | instead text => { d with shown := d.shown ++ [text], line := none }
  | exchange a b =>
      { d with line := some (line.map fun c => (((a.idxOf? c).bind fun i => b[i]?)).getD c) }
  | replace r new isAll ignoreCase isPrinted which =>
      let s := line.toList.toArray
      let (text, isHit) := replaced r new isAll ignoreCase which s (s.size + 2) 0 1
      let line := String.ofList text
      { d with line := some line, shown := d.shown ++ if isHit && isPrinted then [line] else [] }

/-- Runs commands on a line, each with whether it is in a range of lines. -/
def runEdits (n total : Nat) : List (EditCommand × Bool) → Edited → Edited × List (EditCommand × Bool)
  | [], d => (d, [])
  | (c, isOpen) :: rest, d =>
      match d.line with
      | none => (d, (c, isOpen) :: rest)
      | some line =>
          if d.isFinished then (d, (c, isOpen) :: rest)
          else
            let (isFor, isOpen) : Bool × Bool := match c.first, c.last with
              | none, _ => (true, false)
              | some a, none => (a.names line n total, false)
              | some a, some b =>
                  if isOpen then (true, !b.names line n total)
                  else if a.names line n total then
                    (true, match b with
                      | .number k => n < k
                      | .last => n != total
                      | .fits _ => true)
                  else (false, false)
            let d := if isFor != c.isNegated then c.edit.apply n d line else d
            let (d, rest) := runEdits n total rest d
            (d, (c, isOpen) :: rest)

/-- Runs a program on lines. -/
def editLines (isQuiet : Bool) (total : Nat) : Nat → List (EditCommand × Bool) → List String → List String
  | _, _, [] => []
  | n, program, line :: rest =>
      let (d, program) := runEdits n total program { line := some line }
      let here := d.shown ++ (if isQuiet then [] else d.line.toList) ++ d.later
      if d.isFinished then here else here ++ editLines isQuiet total (n + 1) program rest

/-- Runs a program on the lines of inputs, or changes files by it. -/
def sed : Utility := fun g =>
  let kept := (g.arguments.find? fun a => a.startsWith "-i" && a != "-i").map fun a =>
    String.ofList (a.toList.drop 2)
  let arguments := g.arguments.map fun a => if a.startsWith "-i" then "-i" else a
  let o := Options.read ["e"] arguments
  let (programs, paths) := match (o.given.filter (·.1 == "e")).map (·.2), o.operands with
    | [], program :: rest => ([program], rest)
    | programs, rest => (programs, rest)
  let isExtended := o.has ["E", "r"]
  let text := "\n".intercalate programs
  match programOf isExtended (text.length + 2) text.toList with
  | none => g.fails "-e expression #1, char 1: unknown command" 1
  | some program =>
      let work (text : String) : String :=
        let lines := linesOf text
        let out := editLines (o.has ["n"]) lines.length 1 (program.map (·, false)) lines
        let result := ofLines out
        if text.endsWith "\n" || out = [] then result else String.ofList result.toList.dropLast
      if o.has ["i"] then
        paths.foldl (fun (d : Done) path =>
          match contentAt d.tree path with
          | .error fault =>
              { d with
                written := d.written ++ [(true, "sed: can't read " ++ path ++ ": " ++ faultText fault ++ "\n")]
                status := 2 }
          | .ok text =>
              let tree := match kept with
                | some ending =>
                    (d.tree.write (pathOf (path ++ ending)) (.ofOctets (bytesOf text))).toOption.getD d.tree
                | none => d.tree
              match tree.write (pathOf path) (.ofOctets (bytesOf (work text))) with
              | .ok tree => { d with tree }
              | .error _ => { d with status := 4 }) { tree := g.tree }
      else
        let inputs := g.inputs paths
        let good := String.join (inputs.map fun (_, c) => c.toOption.getD "")
        let complaints := inputs.filterMap fun (name, c) => match c with
          | .ok _ => none
          | .error fault => some (true, "sed: can't read " ++ name ++ ": " ++ faultText fault ++ "\n")
        { written := complaints ++ [(false, work good)], status := if complaints = [] then 0 else 2
          tree := g.tree, readsInput := readsInput paths }

end Workbench.Shell
