/-
# Utilities for lines of text

What shows, counts, orders and changes lines.
-/

import Workbench.Shell.Utility
import Workbench.Shell.Word

namespace Workbench.Shell

open Workbench.Text

/-! ### Showing -/

/-- Shows inputs one after the other, perhaps with numbers before their lines. -/
def cat : Utility := fun g =>
  let o := Options.read [] g.arguments
  let numbered (text : String) : String :=
    String.join ((linesOf text).zipIdx.map fun (line, i) =>
      aligned 6 (i + 1) ++ "\t" ++ line ++ "\n")
  let marked (text : String) : String :=
    String.ofList (text.toList.flatMap fun c =>
      if c = '\n' then (if o.has ["A", "E", "e"] then ['$', '\n'] else ['\n'])
      else if c = '\t' then (if o.has ["A", "T", "t"] then ['^', 'I'] else ['\t'])
      else if o.has ["A", "v", "e", "t"] then visible c
      else [c])
  g.onEach o.operands plainComplaint fun _ text =>
    let text := marked text
    if o.has ["n", "number"] then numbered text
    else if o.has ["b"] then numberedFrom 1 (linesOf text)
    else text
where
  /-- Lines with numbers before those that are not empty. -/
  numberedFrom (n : Nat) : List String → String
    | [] => ""
    | "" :: rest => "\n" ++ numberedFrom n rest
    | line :: rest => aligned 6 n ++ "\t" ++ line ++ "\n" ++ numberedFrom (n + 1) rest
  /-- A character in signs that can be seen. -/
  visible (c : Char) : List Char :=
    let low (n : Nat) : List Char :=
      if n < 32 then ['^', Char.ofNat (n + 64)]
      else if n = 127 then ['^', '?']
      else [Char.ofNat n]
    if c.toNat < 128 then low c.toNat else ['M', '-'] ++ low (c.toNat - 128)

/-- Arguments in which a number behind a dash is a number of lines. -/
def withLineCount : List String → List String
  | [] => []
  | "-n" :: value :: rest => "-n" :: value :: withLineCount rest
  | "-c" :: value :: rest => "-c" :: value :: withLineCount rest
  | a :: rest =>
      let a := match a.toList with
        | '-' :: c :: digits => if c.isDigit then "-n" ++ String.ofList (c :: digits) else a
        | _ => a
      a :: withLineCount rest

/-- How a part of several inputs is shown: each under its name. -/
def underNames (g : Given) (operands : List String) (work : String → String) : Done :=
  if operands.length ≤ 1 then
    g.onEach operands openComplaint fun _ text => work text
  else
    let first := operands.head?
    g.onEach operands openComplaint fun name text =>
      (if some name = first then "" else "\n") ++ "==> " ++ name ++ " <==\n" ++ work text
where
  /-- How files are told of that cannot be opened. -/
  openComplaint (name : String) (fault : Files.Fault) : String :=
    if fault = .isDirectory then "error reading '" ++ name ++ "': " ++ faultText fault
    else "cannot open '" ++ name ++ "' for reading: " ++ faultText fault

/-- The first lines of a text, each with what ends it. -/
def firstLines (count : Nat) (text : String) : String :=
  let lines := text.splitOn "\n"
  if lines.length ≤ count then text else ofLines (lines.take count)

/-- The last lines of a text. -/
def lastLines (count : Nat) (text : String) : String :=
  let lines := linesOf text
  let shown := lines.drop (lines.length - count)
  if text.endsWith "\n" then ofLines shown else "\n".intercalate shown

/-- Shows the start of inputs. -/
def head : Utility := fun g =>
  let o := Options.read ["n", "c"] (withLineCount g.arguments)
  underNames g o.operands fun text =>
    match o.number? ["c", "bytes"] with
    | some n => String.ofList (text.toList.take n)
    | none =>
        match (o.value? ["n", "lines"]).getD "10" |>.toInt? with
        | some n =>
            if n < 0 then firstLines ((linesOf text).length - n.natAbs) text
            else firstLines n.toNat text
        | none => ""

/-- Shows the end of inputs. -/
def tail : Utility := fun g =>
  let o := Options.read ["n", "c"] (withLineCount g.arguments)
  underNames g o.operands fun text =>
    match o.value? ["c", "bytes"] with
    | some n => String.ofList (text.toList.drop (text.length - (n.toNat?.getD 0)))
    | none =>
        match ((o.value? ["n", "lines"]).getD "10").toList with
        | '+' :: digits =>
            "\n".intercalate ((text.splitOn "\n").drop (((String.ofList digits).toNat?.getD 1) - 1))
        | digits => lastLines ((String.ofList (digits.filter (· != '-'))).toNat?.getD 10) text

/-- Counts lines, words and bytes. -/
def wc : Utility := fun g =>
  let o := Options.read [] g.arguments
  let all := !o.has ["l", "w", "c", "m"]
  let counts (text : String) : List Nat :=
    (if all || o.has ["l"] then [text.toList.count '\n'] else []) ++
    (if all || o.has ["w"] then
      [((text.toList.map fun c => if c.isWhitespace then ' ' else c).splitOn ' ').filter (· != []) |>.length]
      else []) ++
    (if all || o.has ["c", "m"] then [text.length] else [])
  let contents := g.inputs o.operands
  let total := contents.foldl (fun n (_, c) => n + ((c.toOption.map String.length).getD 0)) 0
  let columns := if all then 3 else o.given.length
  let width :=
    if columns = 1 && contents.length = 1 then 1
    else if readsInput o.operands then 7
    else (toString total).length
  let row (ns : List Nat) (name : String) : String :=
    " ".intercalate (ns.map (aligned width)) ++ (if name = "-" && o.operands = [] then "" else " " ++ name) ++ "\n"
  let done := g.onEach o.operands plainComplaint fun name text => row (counts text) name
  if contents.length ≤ 1 then done
  else
    let sums := contents.foldl (fun ns (_, c) =>
      match c with
      | .ok text => List.zipWith (· + ·) ns (counts text)
      | .error _ => ns) (List.replicate columns 0)
    { done with written := done.written ++ [(false, row sums "total")] }

/-! ### Ordering -/

/-- The number that a text starts with. -/
def leadingNumber (text : String) : Int :=
  match (text.toList.dropWhile (· == ' ')) with
  | '-' :: s => -(((String.ofList (s.takeWhile Char.isDigit)).toNat?.getD 0 : Nat) : Int)
  | s => ((String.ofList (s.takeWhile Char.isDigit)).toNat?.getD 0 : Nat)

/-- The fields of a line between separators, or between blanks. -/
def fieldsBy (separator : Option String) (line : String) : List String :=
  match separator with
  | some s => line.splitOn s
  | none => (line.splitOn " ").filter (· != "")

/-- A list without what is the same as what is before it. -/
def withoutRepeats (same : String → String → Bool) : List String → List String
  | a :: b :: rest =>
      if same a b then withoutRepeats same (a :: rest) else a :: withoutRepeats same (b :: rest)
  | lines => lines
termination_by lines => lines.length

/-- Puts lines in order. -/
def sort : Utility := fun g =>
  let o := Options.read ["k", "t", "o"] g.arguments
  let key (line : String) : String :=
    match (o.value? ["k", "key"]).map fun k => (k.splitOn ",").headD "" with
    | some k =>
        let digits := k.toList.takeWhile Char.isDigit
        " ".intercalate ((fieldsBy (o.value? ["t"]) line).drop
          (((String.ofList digits).toNat?.getD 1) - 1))
    | none => line
  let isNumeric := o.has ["n", "g"] || ((o.value? ["k"]).map fun k => k.toList.contains 'n').getD false
  let folded (line : String) : String := if o.has ["f"] then line.map Char.toUpper else line
  let before (a b : String) : Bool :=
    if isNumeric then
      leadingNumber (key a) < leadingNumber (key b) ||
        (leadingNumber (key a) == leadingNumber (key b) && decide (a ≤ b))
    else if folded (key a) = folded (key b) then decide (a ≤ b)
    else decide (folded (key a) ≤ folded (key b))
  let same (a b : String) : Bool :=
    if isNumeric then leadingNumber (key a) == leadingNumber (key b) else folded (key a) = folded (key b)
  let ordered (lines : List String) : List String :=
    let lines := if o.has ["u"] then lines.mergeSort fun a b => same a b || before a b
      else lines.mergeSort before
    if o.has ["r"] then lines.reverse else lines
  if o.has ["c"] then
    let name := o.operands.headD "-"
    let text := ((g.inputs (o.operands.take 1)).head?.bind fun (_, c) => c.toOption).getD ""
    let lines := linesOf text
    match (lines.zipIdx.zip (lines.drop 1)).find? fun ((a, _), b) => ordered [a, b] != [a, b] with
    | some ((_, i), b) =>
        { g.fails (name ++ ":" ++ toString (i + 2) ++ ": disorder: " ++ b) 1 with readsInput := readsInput o.operands }
    | none => { tree := g.tree, readsInput := readsInput o.operands }
  else g.onAll o.operands (fun name fault => "cannot read: " ++ plainComplaint name fault) 2 fun text =>
    let lines := ordered (linesOf text)
    ofLines (if o.has ["u"] then withoutRepeats same lines else lines)

/-- Lines that follow each other and are the same, with their number. -/
def runsOf : List String → List (Nat × String)
  | [] => []
  | line :: rest =>
      match runsOf rest with
      | (n, other) :: more =>
          if line = other then (n + 1, other) :: more else (1, line) :: (n, other) :: more
      | [] => [(1, line)]

/-- Shows of lines that follow each other and are the same only one. -/
def uniq : Utility := fun g =>
  let o := Options.read [] g.arguments
  g.onAll o.operands plainComplaint 1 fun text =>
    let runs := (runsOf (linesOf text)).filter fun (n, _) =>
      (!o.has ["d"] || 1 < n) && (!o.has ["u"] || n = 1)
    ofLines (runs.map fun (n, line) => if o.has ["c"] then aligned 7 n ++ " " ++ line else line)

/-- Shows lines, the last one first. -/
def tac : Utility := fun g =>
  g.onEach g.arguments (fun name fault =>
    "failed to open '" ++ name ++ "' for reading: " ++ faultText fault) fun _ text => ofLines (linesOf text).reverse

/-- Shows lines, each from its end on. -/
def rev : Utility := fun g =>
  g.onEach g.arguments (fun name fault => "cannot open " ++ name ++ ": " ++ faultText fault) fun _ text =>
    ofLines ((linesOf text).map fun line => String.ofList line.toList.reverse)

/-! ### Columns -/

/-- The positions that a list of ranges names. -/
def isListed (ranges : String) (n : Nat) : Bool :=
  (ranges.splitOn ",").any fun range =>
    match range.splitOn "-" with
    | [a] => a.toNat? = some n
    | [a, b] => (a.toNat?.getD 1) ≤ n && ((b.toNat?.map fun b => decide (n ≤ b)).getD true)
    | _ => false

/-- Shows parts of lines. -/
def cut : Utility := fun g =>
  let o := Options.read ["d", "f", "c", "b"] g.arguments
  let listed (ranges : String) {α : Type} (xs : List α) : List α :=
    (xs.zipIdx.filter fun (_, i) => isListed ranges (i + 1)).map (·.1)
  g.onEach o.operands plainComplaint fun _ text =>
    ofLines <| (linesOf text).filterMap fun line =>
      match o.value? ["c", "b"], o.value? ["f"] with
      | some ranges, _ => some (String.ofList (listed ranges line.toList))
      | none, some ranges =>
          let separator := (o.value? ["d"]).getD "\t"
          match line.splitOn separator with
          | [_] => if o.has ["s"] then none else some line
          | fields => some (separator.intercalate (listed ranges fields))
      | none, none => some line

/-- Texts with characters between them, of which the next one is taken each time. -/
def joinedBy (separators : List Char) : Nat → List String → String
  | _, [] => ""
  | _, [line] => line
  | i, line :: rest =>
      line ++ ((separators[i % separators.length]?).map String.singleton).getD "" ++
        joinedBy separators (i + 1) rest

/-- Puts lines side by side. -/
def paste : Utility := fun g =>
  let o := Options.read ["d"] g.arguments
  let separators := controls 64 ((o.value? ["d", "delimiters"]).getD "\t").toList
  if o.has ["s"] then
    g.onEach o.operands plainComplaint fun _ text => joinedBy separators 0 (linesOf text) ++ "\n"
  else
    let places := o.operands.filter isInput
    let inputs := if 1 < places.length && places.length = o.operands.length then
        let all := linesOf g.input
        (List.range places.length).map fun i =>
          (all.zipIdx.filter fun (_, n) => n % places.length = i).map (·.1)
      else (g.inputs o.operands).map fun (_, c) => linesOf (c.toOption.getD "")
    let height := inputs.foldl (fun n lines => max n lines.length) 0
    { g.tells (ofLines ((List.range height).map fun i =>
        joinedBy separators 0 (inputs.map fun lines => (lines[i]?).getD ""))) with
      readsInput := readsInput o.operands }

/-! ### Characters -/

/-- The characters that a set of `tr` names. -/
def setOf : Nat → List Char → List Char
  | 0, _ => []
  | _, [] => []
  | fuel + 1, '[' :: ':' :: s =>
      let name := String.ofList (s.takeWhile Char.isAlpha)
      let bytes := (List.range 256).map Char.ofNat
      let rest := s.drop (name.length + 2)
      let found := match name with
        | "upper" => bytes.filter Char.isUpper
        | "lower" => bytes.filter Char.isLower
        | "digit" => bytes.filter Char.isDigit
        | "alpha" => bytes.filter Char.isAlpha
        | "alnum" => bytes.filter Char.isAlphanum
        | "space" => ['\t', '\n', '\x0b', '\x0c', '\r', ' ']
        | "blank" => ['\t', ' ']
        | "punct" => bytes.filter fun c => '!' ≤ c && c ≤ '~' && !c.isAlphanum
        | _ => []
      found ++ setOf fuel rest
  | fuel + 1, a :: '-' :: b :: s =>
      (List.range' a.toNat (b.toNat + 1 - a.toNat)).map Char.ofNat ++ setOf fuel s
  | fuel + 1, c :: s => c :: setOf fuel s

/-- A text in which characters of a set stand only once in a row. -/
def squeezed (set : List Char) : List Char → List Char
  | a :: b :: rest =>
      if a = b && set.contains a then squeezed set (b :: rest) else a :: squeezed set (b :: rest)
  | s => s

/-- Replaces, removes or squeezes characters. -/
def tr : Utility := fun g =>
  let o := Options.read [] g.arguments
  let set (i : Nat) : List Char :=
    let text := ((o.operands[i]?).getD "").toList
    setOf 512 (controls (text.length + 1) text)
  let first := set 0
  let second := set 1
  let isIn (c : Char) : Bool := first.contains c != o.has ["c", "C"]
  let last := second.getLast?
  let replace (c : Char) : Char :=
    if !isIn c then c
    else if o.has ["c", "C"] then last.getD c
    else (second[(first.idxOf? c).getD 0]?).getD (last.getD c)
  let text := g.input.toList
  let changed :=
    if o.has ["d"] then text.filter fun c => !isIn c
    else if second = [] then text else text.map replace
  let result :=
    if o.has ["s"] then squeezed (if second = [] then (changed.filter isIn).eraseDups else second) changed
    else changed
  { g.tells (String.ofList result) with readsInput := true }

/-! ### Numbers -/

/-- Shows numbers one after the other. -/
def seq : Utility := fun g =>
  let o := Options.read ["s", "f"] (g.arguments.map fun a =>
    if (a.toInt?).isSome && a.startsWith "-" then "+" ++ a else a)
  let numbers := o.operands.filterMap fun a =>
    (if a.startsWith "+" then String.ofList (a.toList.drop 1) else a).toInt?
  if o.operands = [] then g.isMisused "missing operand" 1
  else if numbers.length != o.operands.length then
    g.isMisused ("invalid floating point argument: '" ++
      (o.operands.find? fun a => (a.toInt?).isNone).getD "" ++ "'") 1
  else if 3 < numbers.length then
    g.isMisused ("extra operand '" ++ (o.operands[3]?).getD "" ++ "'") 1
  else
    let (first, step, last) : Int × Int × Int := match numbers with
      | [last] => (1, 1, last)
      | [first, last] => (first, 1, last)
      | [first, step, last] => (first, step, last)
      | _ => (1, 1, 0)
    let count := if step = 0 then 0 else ((last - first) / step + 1).toNat
    let all := (List.range count).map fun (i : Nat) => toString (first + step * i)
    let width := all.foldl (fun n s => max n s.length) 0
    let all := if o.has ["w"] then all.map fun s =>
      String.ofList (List.replicate (width - s.length) '0') ++ s else all
    g.tells (if all = [] then "" else ((o.value? ["s"]).getD "\n").intercalate all ++ "\n")

/-- The name of a path without what leads there. -/
def basename : Utility := fun g =>
  let o := Options.read ["s"] g.arguments
  let isMany := o.has ["a", "s"]
  let ending := (if isMany then (o.value? ["s"]).getD "" else (o.operands[1]?).getD "").toList
  let base (path : String) : String :=
    let bare := (path.toList.reverse.dropWhile (· == '/')).reverse
    let name := if bare = [] && path != "" then ['/'] else (bare.reverse.takeWhile (· != '/')).reverse
    String.ofList (if ending.isSuffixOf name && name != ending then name.take (name.length - ending.length)
      else name)
  if o.operands = [] then g.isMisused "missing operand" 1
  else g.tells (ofLines ((if isMany then o.operands else o.operands.take 1).map base))

/-- What leads to the name of a path. -/
def dirname : Utility := fun g =>
  let parent (path : String) : String :=
    let bare := path.toList.reverse.dropWhile (· == '/')
    let above := bare.dropWhile (· != '/')
    if bare = [] && path != "" then "/"
    else if above = [] then "."
    else
      let rest := above.dropWhile (· == '/')
      if rest = [] then "/" else String.ofList rest.reverse
  if g.arguments = [] then g.isMisused "missing operand" 1
  else g.tells (ofLines (g.arguments.map parent))

end Workbench.Shell
