/-
# Utilities for files

What lists, makes, moves and removes files.
-/

import Workbench.Shell.Utility
import Workbench.Digest.Sha1
import Workbench.Digest.Sha256
import Workbench.Text.Wildcard

namespace Workbench.Shell

open Workbench.Text Workbench.Files

/-! ### Listing -/

/-- The names in a directory, in order. -/
def namesIn (tree : Tree) (place : Path) (o : Options) : List String :=
  let names := ((tree.children place).map fun c => seen c.1).filter fun name =>
    o.has ["a", "A"] || !name.startsWith "."
  let names := names ++ if o.has ["a"] then [".", ".."] else []
  let ordered := names.mergeSort fun a b => decide (a ≤ b)
  if o.has ["r"] then ordered.reverse else ordered

/-- A name with a mark for what it is. -/
def markedName (tree : Tree) (o : Options) (directory name : String) : String :=
  let path := pathOf (Path.below directory name)
  let isDirectory := match tree.find false path with
    | .ok ⟨_, some (.directory _)⟩ => true
    | _ => false
  let isLink := match tree.find false path with
    | .ok ⟨_, some (.link _)⟩ => true
    | _ => false
  if isDirectory && o.has ["p", "F"] then name ++ "/"
  else if isLink && o.has ["F"] then name ++ "@"
  else name

/-- The directories below one, each after the one that it is in. -/
def directoriesBelow (tree : Tree) (o : Options) : Nat → String → List String
  | 0, path => [path]
  | fuel + 1, path =>
      path :: match tree.find true (pathOf path) with
        | .ok ⟨place, some (.directory _)⟩ =>
            ((namesIn tree place o).filter fun name =>
              name != "." && name != ".." &&
                (tree.get? (place ++ [pathOf name])).map Entry.isDirectory = some true).flatMap
              fun name => directoriesBelow tree o fuel (Path.below path name)
        | _ => []

/-- The permissions of an entry, in letters. -/
def modeText (entry : Entry) : String :=
  let letters (shift : Nat) : List Char :=
    let bits := entry.mode >>> shift
    [if bits &&& 4 != 0 then 'r' else '-', if bits &&& 2 != 0 then 'w' else '-',
      if bits &&& 1 != 0 then 'x' else '-']
  let kind := match entry with
    | .file _ _ => '-'
    | .directory _ => 'd'
    | .link _ => 'l'
  String.ofList (kind :: letters 6 ++ letters 3 ++ letters 0)

/-- The size that is shown of an entry. -/
def shownSize : Entry → Nat
  | .file _ content => content.octets.length
  | .directory _ => 4096
  | .link target => target.utf8ByteSize

/-- A line that tells of an entry at length, before its name. -/
def longText (tree : Tree) (directory name : String) : String :=
  match tree.find false (pathOf (Path.below directory name)) with
  | .ok ⟨_, some entry⟩ =>
      let links := if entry.isDirectory then "2" else "1"
      let target := match entry with
        | .link target => " -> " ++ seen target
        | _ => ""
      modeText entry ++ " " ++ links ++ " root root " ++ toString (shownSize entry) ++
        " Jan  1 00:00 " ++ name ++ target ++ "\n"
  | _ => ""

/-- Lists files and directories. -/
def ls : Utility := fun g =>
  let o := Options.read [] g.arguments
  let paths := if o.operands = [] then ["."] else o.operands.mergeSort fun a b => decide (a ≤ b)
  let look (path : String) : Except Files.Fault Entry := do
    match (← g.tree.find (!o.has ["l", "d"]) (pathOf path)).entry with
    | some entry => return entry
    | none => throw .missing
  let missing := paths.filterMap fun path =>
    match look path with
    | .ok _ => none
    | .error fault => some (true, g.name ++ ": cannot access '" ++ path ++ "': " ++ faultText fault ++ "\n")
  let there := paths.filter fun path => (look path).isOk
  let isShownItself (path : String) : Bool := o.has ["d"] || ((look path).map fun e => !e.isDirectory).toOption.getD true
  let files := there.filter isShownItself
  let directories := (there.filter fun path => !isShownItself path).flatMap fun path =>
    if o.has ["R"] then directoriesBelow g.tree o g.tree.entries.length path else [path]
  let isNamed := 1 < paths.length || o.has ["R"]
  let linesFor (directory : String) (names : List String) : String :=
    if o.has ["l"] then
      (if directory = "" then "" else "total " ++ toString (4 * names.length) ++ "\n") ++
        String.join (names.map (longText g.tree directory))
    else ofLines (names.map (markedName g.tree o directory))
  let listing (path : String) : String :=
    match g.tree.find true (pathOf path) with
    | .ok ⟨place, some (.directory _)⟩ =>
        (if isNamed then path ++ ":\n" else "") ++
          linesFor path (namesIn g.tree place o)
    | _ => ""
  let blocks := (if files = [] then [] else [linesFor "" files]) ++ directories.map listing
  { written := missing ++ [(false, "\n".intercalate blocks)]
    status := if missing = [] then 0 else 2, tree := g.tree }

/-! ### Changing -/

/-- Does something for every operand; what goes wrong is told of. -/
def forEachOperand (g : Given) (operands : List String)
    (act : Tree → String → Except String Tree) : Done :=
  operands.foldl (fun (d : Done) operand =>
    match act d.tree operand with
    | .ok tree => { d with tree }
    | .error text =>
        { d with written := d.written ++ [(true, g.name ++ ": " ++ text ++ "\n")], status := 1 })
    { tree := g.tree }

/-- What came of an access, with words for a fault. -/
def telling {α : Type} (r : Except Files.Fault α) (text : String) : Except String α :=
  r.mapError fun fault => text ++ ": " ++ faultText fault

/-- Removes files. -/
def rm : Utility := fun g =>
  let o := Options.read [] g.arguments
  if o.operands = [] then
    if o.has ["f"] then g.tells ""
    else g.isMisused "missing operand" 1
  else forEachOperand g o.operands fun tree path =>
    let told := "cannot remove '" ++ path ++ "'"
    match tree.find false (pathOf path) with
    | .ok ⟨_, some (.directory _)⟩ =>
        if o.has ["r", "R", "recursive"] then telling (tree.removeDirectory (pathOf path)) told
        else .error (told ++ ": Is a directory")
    | .ok ⟨_, none⟩ =>
        if o.has ["f", "force"] then .ok tree else .error (told ++ ": No such file or directory")
    | .error .missing =>
        if o.has ["f", "force"] then .ok tree else .error (told ++ ": No such file or directory")
    | _ => telling (tree.removeFile (pathOf path)) told

/-- Makes directories. -/
def mkdir : Utility := fun g =>
  let o := Options.read ["m"] g.arguments
  if o.operands = [] then g.isMisused "missing operand" 1
  else forEachOperand g o.operands fun tree path =>
    let told := "cannot create directory '" ++ path ++ "'"
    if o.has ["p", "parents"] then
      match tree.makeDirectoriesTo (pathOf path) with
      | (none, tree) => .ok tree
      | (some fault, _) => .error (told ++ ": " ++ faultText fault)
    else telling (tree.makeDirectory (pathOf path)) told

/-- Removes empty directories. -/
def rmdir : Utility := fun g =>
  let o := Options.read [] g.arguments
  forEachOperand g o.operands fun tree path =>
    let told := "failed to remove '" ++ path ++ "'"
    match tree.find false (pathOf path) with
    | .ok ⟨place, some (.directory _)⟩ =>
        if tree.below place = [] then telling (tree.removeDirectory (pathOf path)) told
        else .error (told ++ ": Directory not empty")
    | .ok ⟨_, some _⟩ => .error (told ++ ": Not a directory")
    | .ok ⟨_, none⟩ => .error (told ++ ": No such file or directory")
    | .error fault => .error (told ++ ": " ++ faultText fault)

/-- Makes files that are not there. -/
def touch : Utility := fun g =>
  let o := Options.read ["d", "t", "r"] g.arguments
  if o.operands = [] then g.isMisused "missing file operand" 1
  else forEachOperand g o.operands fun tree path =>
    if tree.isThere (pathOf path) || o.has ["c"] then .ok tree
    else telling (tree.write (pathOf path) (.text "")) ("cannot touch '" ++ path ++ "'")

/-- Where something goes that is moved to a path. -/
def destination (tree : Tree) (source target : String) : String :=
  if tree.isDirectory (pathOf target) then
    Path.below target (seen ((Path.names (pathOf source)).getLast?.getD ""))
  else target

/-- Copies the content and the permissions of a file, or all of a directory. -/
def copied (tree : Tree) (isDeep : Bool) (source target : String) : Except String Tree :=
  match tree.find true (pathOf source) with
  | .error fault => .error ("cannot stat '" ++ source ++ "': " ++ faultText fault)
  | .ok ⟨_, none⟩ => .error ("cannot stat '" ++ source ++ "': No such file or directory")
  | .ok ⟨place, some (.directory mode)⟩ =>
      if !isDeep then .error ("-r not specified; omitting directory '" ++ source ++ "'")
      else match tree.find true (pathOf target) with
        | .ok goal =>
            .ok ((tree.below place).foldl (fun (t : Tree) (names, entry) =>
              t.put (goal.path ++ names) entry) (tree.put goal.path (.directory mode)))
        | .error fault => .error ("cannot create directory '" ++ target ++ "': " ++ faultText fault)
  | .ok ⟨_, some entry⟩ =>
      let content := match entry with
        | .file _ content => content
        | _ => .text ""
      telling ((tree.write (pathOf target) content).bind fun t =>
          if tree.isThere (pathOf target) then .ok t else t.setMode (pathOf target) entry.mode)
        ("cannot create regular file '" ++ target ++ "'")

/-- Does something from all operands but the last one to that one. -/
def towardsLast (g : Given) (operands : List String)
    (act : Tree → String → String → Except String Tree) : Done :=
  match operands.reverse with
  | [] => g.fails ("missing file operand\nTry '" ++ g.name ++ " --help' for more information.") 1
  | [one] =>
      g.fails ("missing destination file operand after '" ++ one ++ "'\nTry '" ++ g.name ++
        " --help' for more information.") 1
  | target :: sources =>
      if 1 < sources.length && !g.tree.isDirectory (pathOf target) then
        g.fails ("target '" ++ target ++ "': " ++
          if g.tree.isThere (pathOf target) then "Not a directory" else "No such file or directory") 1
      else forEachOperand g sources.reverse fun tree source =>
        act tree source (destination tree source target)

/-- Copies files. -/
def cp : Utility := fun g =>
  let o := Options.read [] g.arguments
  towardsLast g o.operands fun tree source target =>
    copied tree (o.has ["r", "R", "a"]) source target

/-- Moves files. -/
def mv : Utility := fun g =>
  let o := Options.read [] g.arguments
  towardsLast g o.operands fun tree source target =>
    match tree.find false (pathOf source) with
    | .ok ⟨_, some _⟩ =>
        telling (tree.rename (pathOf source) (pathOf target))
          ("cannot move '" ++ source ++ "' to '" ++ target ++ "'")
    | .ok ⟨_, none⟩ => .error ("cannot stat '" ++ source ++ "': No such file or directory")
    | .error fault => .error ("cannot stat '" ++ source ++ "': " ++ faultText fault)

/-- Makes links. -/
def ln : Utility := fun g =>
  let o := Options.read [] g.arguments
  match o.operands with
  | [source, target] =>
      let target := destination g.tree source target
      let free := if o.has ["f"] then (g.tree.removeFile (pathOf target)).toOption.getD g.tree else g.tree
      forEachOperand g [source] fun _ source =>
        if o.has ["s"] then
          telling (free.makeLink (pathOf target) (pathOf source))
            ("failed to create symbolic link '" ++ target ++ "'")
        else copied free false source target
  | _ => g.fails "missing file operand" 1

/-- The permissions that a text names, of a file that has some. -/
def modeOf (text : String) (old : Nat) : Option Nat :=
  if text.all fun c => '0' ≤ c && c ≤ '7' then
    some (text.toList.foldl (fun n c => 8 * n + (c.toNat - '0'.toNat)) 0)
  else
    let who := text.toList.takeWhile fun c => ['u', 'g', 'o', 'a'].contains c
    let all := who = [] || who.contains 'a'
    match text.toList.drop who.length with
    | sign :: bits =>
        let bit (c : Char) : Nat := if c = 'r' then 4 else if c = 'w' then 2 else if c = 'x' then 1 else 0
        let n := bits.foldl (fun n c => n ||| bit c) 0
        let mask := (if all || who.contains 'u' then n * 64 else 0) +
          (if all || who.contains 'g' then n * 8 else 0) + (if all || who.contains 'o' then n else 0)
        if sign = '+' then some (old ||| mask)
        else if sign = '-' then some (old - (old &&& mask))
        else none
    | [] => none

/-- Sets permissions. -/
def chmod : Utility := fun g =>
  match (g.arguments.filter fun a => a != "-R") with
  | mode :: paths =>
      forEachOperand g paths fun tree path =>
        match tree.stat (pathOf path) with
        | .error fault => .error ("cannot access '" ++ path ++ "': " ++ faultText fault)
        | .ok entry =>
            match modeOf mode entry.mode with
            | some n => telling (tree.setMode (pathOf path) n) path
            | none => .error ("invalid mode: '" ++ mode ++ "'\nTry 'chmod --help' for more information.")
  | [] => g.isMisused "missing operand" 1

/-- Shows where links lead. -/
def readlink : Utility := fun g =>
  let o := Options.read [] g.arguments
  let path := o.operands.headD ""
  if o.has ["f", "e", "m"] || g.name = "realpath" then
    match g.tree.realPath (pathOf path) with
    | .ok place => g.tells (seen (Path.text place) ++ "\n")
    | .error fault => if g.name = "realpath" then g.fails (path ++ ": " ++ faultText fault) 1
        else { tree := g.tree, status := 1 }
  else match g.tree.find false (pathOf path) with
    | .ok ⟨_, some (.link target)⟩ => g.tells (seen target ++ "\n")
    | _ => { tree := g.tree, status := 1 }

/-- Shows an input, and writes it to files as well. -/
def tee : Utility := fun g =>
  let o := Options.read [] g.arguments
  let start : Done := { written := [(false, g.input)], tree := g.tree, readsInput := true }
  o.operands.foldl (fun d path =>
    match path with
    | "/dev/null" => d
    | "/dev/stdout" => { d with written := d.written ++ [(false, g.input)] }
    | "/dev/stderr" => { d with written := d.written ++ [(true, g.input)] }
    | _ =>
        let old := if o.has ["a"] then (contentAt d.tree path).toOption.getD "" else ""
        match d.tree.write (pathOf path) (.ofOctets (bytesOf (old ++ g.input))) with
        | .ok tree => { d with tree }
        | .error fault =>
            { d with
              written := d.written ++ [(true, g.name ++ ": " ++ path ++ ": " ++ faultText fault ++ "\n")]
              status := 1 }) start

/-- Shows the digests of inputs. -/
def digests (digest : Octets → Octets) : Utility := fun g =>
  g.onEach g.arguments plainComplaint fun name text =>
    Octets.toHex (digest (bytesOf text)) ++ "  " ++ name ++ "\n"

end Workbench.Shell
