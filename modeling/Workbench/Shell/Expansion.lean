/-
# Expansion

What words become: braces give several words, variables and scripts their values, what
stands outside of quotes is split at blanks, and patterns stand for the files that fit
them.

* `expand` — the texts that words become.
* `expandText` — the one text that a word becomes where words are not split.
-/

import Workbench.Shell.Arithmetic
import Workbench.Text.Wildcard

namespace Workbench.Shell

open Workbench.Text Workbench.Files

/-- Runs a script for what it writes. -/
abbrev Capture := String → Run String

/-- A character of a field: in quotes, as it stands in the word, or from a value. -/
inductive Origin where
  | quoted
  | written
  | value
  deriving DecidableEq, Repr

/-- A text that a word becomes, while it still can be split; one that has something in
quotes stays even if it is empty. -/
structure Field where
  text : List (Char × Origin) := []
  hasQuotes : Bool := false

/-- A text of one origin. -/
def Field.of (origin : Origin) (text : String) : Field :=
  ⟨text.toList.map (·, origin), origin = .quoted⟩

/-- A field behind another. -/
def Field.append (a b : Field) : Field :=
  ⟨a.text ++ b.text, a.hasQuotes || b.hasQuotes⟩

/-- Fields behind others: the first one goes on where the last one ends. -/
def joinFields : List Field → List Field → List Field
  | [], bs => bs
  | [a], [] => [a]
  | [a], b :: bs => a.append b :: bs
  | a :: as, bs => a :: joinFields as bs

/-! ### Braces -/

/-- The texts between commas, and what follows the brace that closes. -/
def alternatives? (depth : Nat) : List Char → Option (List (List Char) × List Char)
  | [] => none
  | c :: rest =>
      if c = '\x7d' && depth = 0 then some ([[]], rest)
      else if c = ',' && depth = 0 then (alternatives? 0 rest).map fun (as, t) => ([] :: as, t)
      else
        let depth' := if c = '\x7b' then depth + 1 else if c = '\x7d' then depth - 1 else depth
        (alternatives? depth' rest).map fun (as, t) =>
          match as with
          | a :: others => ((c :: a) :: others, t)
          | [] => ([[c]], t)

/-- The texts of a range. -/
def rangeOf? (text : String) : Option (List String) :=
  let steps (a b step : Int) : List Int :=
    let count := (if a ≤ b then b - a else a - b) / step
    (List.range (count.toNat + 1)).map fun (i : Nat) => if a ≤ b then a + step * i else a - step * i
  let padded (a b text : String) : String :=
    let isPadded (s : String) : Bool := s.startsWith "0" && 1 < s.length
    let width := if isPadded a || isPadded b then max a.length b.length else 0
    String.ofList (List.replicate (width - text.length) '0') ++ text
  match text.splitOn ".." with
  | [a, b] =>
      match a.toInt?, b.toInt? with
      | some x, some y => some ((steps x y 1).map fun n => padded a b (toString n))
      | _, _ =>
          match a.toList, b.toList with
          | [a], [b] =>
              if a.isAlpha && b.isAlpha then
                some ((steps a.toNat b.toNat 1).map fun n => String.singleton (Char.ofNat n.toNat))
              else none
          | _, _ => none
  | [a, b, step] =>
      match a.toInt?, b.toInt?, step.toInt? with
      | some a, some b, some step => some ((steps a b (max 1 step.natAbs)).map toString)
      | _, _, _ => none
  | _ => none

/-- The texts that a text with braces becomes. -/
def braceTexts : Nat → List Char → List (List Char)
  | 0, s => [s]
  | _, [] => [[]]
  | fuel + 1, '\x7b' :: s =>
      let keep := (braceTexts fuel s).map ('\x7b' :: ·)
      match alternatives? 0 s with
      | none => keep
      | some (as, rest) =>
          let choices? : Option (List (List Char)) :=
            match as with
            | [] => none
            | [one] => (rangeOf? (String.ofList one)).map fun texts => texts.map String.toList
            | _ => some (as.flatMap (braceTexts fuel))
          match choices? with
          | none => keep
          | some choices =>
              let rests := braceTexts fuel rest
              choices.flatMap fun a => rests.map (a ++ ·)
  | fuel + 1, c :: s => (braceTexts fuel s).map (c :: ·)

/-- The words that a word with braces becomes. -/
def braceWords : Word → List Word
  | [] => [[]]
  | .plain text false :: rest =>
      let texts := braceTexts (text.length + 1) text.toList
      texts.flatMap fun t => (braceWords rest).map (.plain (String.ofList t) false :: ·)
  | p :: rest => (braceWords rest).map (p :: ·)

/-! ### Changed values -/

/-- A text in which nothing is a pattern. -/
def literally (text : String) : List Char :=
  text.toList.flatMap fun c => ['\\', c]

/-- The pattern that a field is. -/
def Field.pattern (f : Field) : List Wildcard :=
  Wildcard.ofText (String.ofList (f.text.flatMap fun (c, origin) =>
    if origin = .quoted then ['\\', c] else [c]))

/-- Whether a pattern stands for a start of a text of this length. -/
def fitsStart (pattern : List Wildcard) (s : List Char) (n : Nat) : Bool :=
  n ≤ s.length && Wildcard.fits false pattern (s.take n)

/-- A text without a start, or an end, that a pattern stands for. -/
def trimmed (change : String) (pattern : List Wildcard) (s : List Char) : List Char :=
  let lengths := List.range (s.length + 1)
  let order := if change.length = 2 then lengths.reverse else lengths
  if change.startsWith "#" then
    ((order.find? fitsHere).map s.drop).getD s
  else
    ((order.find? fun n => Wildcard.fits false pattern (s.drop (s.length - n))).map fun n =>
      s.take (s.length - n)).getD s
where
  /-- The pattern stands for a start of this length. -/
  fitsHere (n : Nat) : Bool := fitsStart pattern s n

/-- A text with others in the place of what a pattern stands for: of all, or of the first. -/
def substituted : Nat → Bool → List Wildcard → List Char → List Char → List Char
  | 0, _, _, _, s => s
  | _, _, _, _, [] => []
  | fuel + 1, all, pattern, new, c :: s =>
      let text := c :: s
      match (List.range (text.length + 1)).reverse.find? fun n => 0 < n && fitsStart pattern text n with
      | some n => new ++ if all then substituted fuel all pattern new (text.drop n) else text.drop n
      | none => c :: substituted fuel all pattern new s

/-- A value without the newlines at its end. -/
def withoutNewlines (text : String) : String :=
  String.ofList (text.toList.reverse.dropWhile (· == '\n')).reverse

/-! ### Parts -/

/-- Gives the line up. -/
def giveUp {α : Type} (text : String) (flow : Flow) : Run α := do
  complain text
  setStatus 1
  throw flow

/-- The value of an expression. -/
def compute (text : String) : Run Int := do
  match Arithmetic.evaluate (← get) text with
  | .ok (n, m) => do set m; return n
  | .error e => giveUp e (.given 1)

/-- A part of a value: from a place on, and so many characters. -/
def slice (value : String) (first : Int) (count : Option Int) : String :=
  let s := value.toList
  let n : Int := s.length
  let start := if first < 0 then n + first else first
  if start < 0 || n < start then ""
  else
    let rest := s.drop start.toNat
    match count with
    | none => String.ofList rest
    | some c => String.ofList (rest.take (if c < 0 then (n - start + c).toNat else c.toNat))

/-- An operand before and after its first slash outside of quotes. -/
def splitAtSlash : Word → Word × Word
  | [] => ([], [])
  | .plain text false :: rest =>
      let s := text.toList
      let before := s.takeWhile (· != '/')
      if before.length = s.length then
        let (a, b) := splitAtSlash rest
        (.plain text false :: a, b)
      else
        ([.plain (String.ofList before) false],
          .plain (String.ofList (s.drop (before.length + 1))) false :: rest)
  | p :: rest =>
      let (a, b) := splitAtSlash rest
      (p :: a, b)

mutual

/-- The fields that parts become. -/
def fieldsOf (capture : Capture) : Nat → Word → Run (List Field)
  | 0, _ => return []
  | _, [] => return []
  | fuel + 1, p :: rest => do
      let fields ← fieldsOfPart capture fuel p
      return joinFields fields (← fieldsOf capture fuel rest)

/-- The text that parts become where nothing is split. -/
def textOf (capture : Capture) : Nat → Word → Run String
  | 0, _ => return ""
  | fuel + 1, w => do
      let fields ← fieldsOf capture fuel w
      return " ".intercalate (fields.map fun f => String.ofList (f.text.map (·.1)))

/-- The fields that a part becomes. -/
def fieldsOfPart (capture : Capture) : Nat → Part → Run (List Field)
  | 0, _ => return []
  | fuel + 1, part => do
      let origin (isQuoted : Bool) : Origin := if isQuoted then .quoted else .value
      match part with
      | .plain text true => return [.of .quoted text]
      | .plain text false => return [.of .written text]
      | .output script isQuoted => do
          let text ← capture script
          return [.of (origin isQuoted) (withoutNewlines text)]
      | .arithmetic expression isQuoted => do
          let n ← compute (← textOf capture fuel expression)
          return [.of (origin isQuoted) (toString n)]
      | .variable "" _ _ _ => giveUp "$\x7b\x7d: bad substitution" (.exit 1)
      | .variable name "" _ isQuoted => do
          let m ← get
          if name = "@" || (name = "*" && !isQuoted) then
            if m.arguments = [] then return [] else
            return m.arguments.map (Field.of (origin isQuoted))
          if name = "*" then
            return [.of .quoted ((String.ofList (m.separators.take 1)).intercalate m.arguments)]
          match m.value? name with
          | some value => return [.of (origin isQuoted) value]
          | none =>
              if m.has "u" && name != "!" then
                giveUp (name ++ ": unbound variable") (.exit 1)
              return [.of (origin isQuoted) ""]
      | .variable name change operand isQuoted => do
          let m ← get
          let value? :=
            if name = "@" || name = "*" then
              if m.arguments = [] then none else some (" ".intercalate m.arguments)
            else m.value? name
          let value := value?.getD ""
          let plain (text : String) : Run (List Field) := return [.of (origin isQuoted) text]
          let isSet := if change.startsWith ":" then value != "" else value?.isSome
          let patternOf (w : Word) : Run (List Wildcard) := do
            let fields ← fieldsOf capture fuel w
            return (fields.foldl Field.append {}).pattern
          match change with
          | "length" =>
              plain (toString (if name = "@" || name = "*" then m.arguments.length
                else value.length))
          | "indirect" =>
              if value? = none then giveUp (name ++ ": invalid indirect expansion") (.exit 1)
              else plain ((m.value? value).getD "")
          | ":-" => if isSet then plain value else fieldsOf capture fuel operand
          | "-" => if isSet then plain value else fieldsOf capture fuel operand
          | ":+" => if isSet then fieldsOf capture fuel operand else plain ""
          | "+" => if isSet then fieldsOf capture fuel operand else plain ""
          | ":=" => assigned capture fuel name value isSet operand (origin isQuoted)
          | "=" => assigned capture fuel name value isSet operand (origin isQuoted)
          | ":?" => required capture fuel name value isSet "null or " operand (origin isQuoted)
          | "?" => required capture fuel name value isSet "" operand (origin isQuoted)
          | "^^" => plain (String.ofList (value.toList.map Char.toUpper))
          | ",," => plain (String.ofList (value.toList.map Char.toLower))
          | "^" => plain (String.ofList (value.toList.take 1 |>.map Char.toUpper) ++
              String.ofList (value.toList.drop 1))
          | "," => plain (String.ofList (value.toList.take 1 |>.map Char.toLower) ++
              String.ofList (value.toList.drop 1))
          | ":" => do
              let text ← textOf capture fuel operand
              match text.splitOn ":" with
              | [first] => plain (slice value (← compute first) none)
              | [first, count] =>
                  plain (slice value (← compute first) (some (← compute count)))
              | _ => giveUp ("$\x7b" ++ name ++ "\x7d: bad substitution") (.exit 1)
          | "bad" => giveUp ("$\x7b" ++ name ++ (← textOf capture fuel operand) ++
              "\x7d: bad substitution") (.exit 1)
          | _ => do
              if change.startsWith "/" then
                let (old, new) := splitAtSlash operand
                let pattern ← patternOf old
                let new := (← textOf capture fuel new).toList
                let s := value.toList
                if change = "/#" then
                  match (List.range (s.length + 1)).reverse.find? (fitsStart pattern s) with
                  | some n => plain (String.ofList (new ++ s.drop n))
                  | none => plain value
                else if change = "/%" then
                  let kept := trimmed "%%" pattern s
                  plain (String.ofList (if kept.length < s.length then kept ++ new else s))
                else
                  plain (String.ofList (substituted (s.length + 1) (change = "//") pattern new s))
              else
                plain (String.ofList (trimmed change (← patternOf operand) value.toList))

/-- The value of a variable, or of an operand that it is given as a value. -/
def assigned (capture : Capture) :
    Nat → String → String → Bool → Word → Origin → Run (List Field)
  | 0, _, _, _, _, _ => return []
  | fuel + 1, name, value, isSet, operand, origin => do
      if isSet then return [.of origin value]
      let text ← textOf capture fuel operand
      modify (·.set name text)
      return [.of origin text]

/-- The value of a variable, which is needed. -/
def required (capture : Capture) :
    Nat → String → String → Bool → String → Word → Origin → Run (List Field)
  | 0, _, _, _, _, _, _ => return []
  | fuel + 1, name, value, isSet, fault, operand, origin => do
      if isSet then return [.of origin value]
      let text ← textOf capture fuel operand
      giveUp (name ++ ": " ++ if text = "" then "parameter " ++ fault ++ "not set" else text) (.exit 1)

end
/-! ### Splitting and files -/

/-- A character splits a field. -/
def splits (separators : List Char) : Char × Origin → Bool
  | (c, .value) => separators.contains c
  | _ => false

/-- A separator is blank: several of them split no more than one. -/
def isBlankSeparator (c : Char × Origin) : Bool :=
  [' ', '\t', '\n'].contains c.1

/-- A field at the characters that split it. A separator that is not blank belongs to the
field before it, also behind blanks that have ended that field. -/
def splitFrom (separators : List Char) (hasQuotes : Bool) :
    List (Char × Origin) → Bool → List (Char × Origin) → List Field
  | here, _, [] => if here = [] then [] else [⟨here.reverse, hasQuotes⟩]
  | here, isEnded, c :: rest =>
      if splits separators c then
        if here != [] then
          ⟨here.reverse, hasQuotes⟩ :: splitFrom separators hasQuotes [] (isBlankSeparator c) rest
        else if isBlankSeparator c then splitFrom separators hasQuotes [] isEnded rest
        else if isEnded then splitFrom separators hasQuotes [] false rest
        else ⟨[], hasQuotes⟩ :: splitFrom separators hasQuotes [] false rest
      else splitFrom separators hasQuotes (c :: here) false rest

/-- The names in a directory that a pattern stands for, in order. -/
def namesThatFit (tree : Tree) (directory : String) (pattern : List Wildcard) (showHidden : Bool) :
    List String :=
  match tree.find true (if directory = "" then "." else directory) with
  | .ok ⟨path, some (.directory _)⟩ =>
      (((tree.children path).map fun c => seen c.1).filter fun name =>
        (showHidden || !name.startsWith ".") && Wildcard.fits true pattern name.toList).mergeSort
          fun a b => decide (a ≤ b)
  | _ => []

/-- The parts of a field between slashes. -/
def Field.names (f : Field) : List (List (Char × Origin)) :=
  f.text.foldr (fun c parts =>
    match parts with
    | part :: others => if c.1 = '/' then [] :: part :: others else (c :: part) :: others
    | [] => [[c]]) [[]]

/-- A character that is not in quotes makes a text a pattern. -/
def isWild : Char × Origin → Bool
  | (_, .quoted) => false
  | (c, _) => c == '*' || c == '?' || c == '['

/-- The paths that names with patterns stand for, behind what has been found. -/
def pathsFrom (tree : Tree) : String → List (List (Char × Origin)) → List String
  | found, [] => [found]
  | found, name :: rest =>
      let behind (text : String) : String := found ++ text ++ if rest = [] then "" else "/"
      let plain := String.ofList (name.map (·.1))
      if name.any isWild then
        let isDirectory (n : String) : Bool :=
          rest = [] || tree.isDirectory (pathOf (found ++ n))
        ((namesThatFit tree (pathOf found) (Field.pattern ⟨name, false⟩)
            (plain.startsWith ".")).filter isDirectory).flatMap fun n =>
          pathsFrom tree (behind n) rest
      else if rest != [] || plain = "" || tree.isThere (pathOf (found ++ plain)) then
        pathsFrom tree (behind plain) rest
      else []

/-- The texts that a field stands for: the files that fit it, or else itself, unless a
pattern without files stands for none. -/
def Field.texts (tree : Tree) (f : Field) (mayBeNone : Bool) : List String :=
  let plain := String.ofList (f.text.map (·.1))
  if f.text.any isWild then
    match pathsFrom tree "" f.names with
    | [] => if mayBeNone then [] else [plain]
    | paths => paths
  else [plain]

/-- A word with the home directory in the place of a tilde at its start. -/
def withHome (m : Machine) : Word → Word
  | .plain text false :: rest =>
      match text.toList with
      | ['~'] => if rest = [] then [.plain ((m.value? "HOME").getD "~") true] else
          .plain text false :: rest
      | '~' :: '/' :: more =>
          .plain ((m.value? "HOME").getD "~") true :: .plain (String.ofList ('/' :: more)) false :: rest
      | _ => .plain text false :: rest
  | w => w

/-- How deep parts may lie in parts. -/
def partDepth : Nat := 64

/-- The texts that a word becomes. -/
def expandWord (capture : Capture) (w : Word) : Run (List String) := do
  let m ← get
  let fields ← fieldsOf capture (w.length + partDepth) (withHome m w)
  let m ← get
  let split := fields.flatMap fun f =>
    let parts := splitFrom m.separators f.hasQuotes [] false f.text
    if parts = [] && f.hasQuotes then [{ f with text := [] }] else parts
  return split.flatMap fun f =>
    if m.has "f" then [String.ofList (f.text.map (·.1))] else f.texts m.tree (m.has "nullglob")

/-- The texts that words become. -/
def expand (capture : Capture) (ws : List Word) : Run (List String) := do
  let texts ← (ws.flatMap braceWords).mapM (expandWord capture)
  return texts.flatten

/-- The one text that a word becomes where words are not split. -/
def expandText (capture : Capture) (w : Word) : Run String := do
  textOf capture (w.length + partDepth) (withHome (← get) w)

/-- The pattern that a word becomes. -/
def expandPattern (capture : Capture) (w : Word) : Run (List Wildcard) := do
  let fields ← fieldsOf capture (w.length + partDepth) (withHome (← get) w)
  return (fields.foldl Field.append {}).pattern

end Workbench.Shell
