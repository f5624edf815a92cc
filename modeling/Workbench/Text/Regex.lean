/-
# Regular expressions

Basic and extended expressions, as tools for lines of text take them. Of the places where
an expression fits the first one counts, and there the longest repetitions and the longer
of two alternatives.

* `Regex.ofText?` — the expression that a text is.
* `Regex.find?` — where it fits first.
-/

import Workbench.Text.Wildcard

namespace Workbench.Text

/-- A regular expression. -/
inductive Regex where
  | nothing
  | exactly (c : Char)
  | anyOne
  | oneOf (inside : Bool) (ranges : List (Char × Char))
  | atStart
  | atEnd
  | wordEdge
  | group (number : Nat) (inner : Regex)
  | again (number : Nat)
  | inOrder (first second : Regex)
  | either (first second : Regex)
  | repeated (least : Nat) (most : Option Nat) (inner : Regex)
  deriving Repr

namespace Regex

/-! ### Fitting -/

/-- Where groups fit. -/
abbrev Groups := List (Nat × Nat × Nat)

/-- A character of words. -/
def isWordChar (c : Char) : Bool :=
  c.isAlphanum || c == '_'

/-- Characters are the same, perhaps but for their case. -/
def sameChar (ignoreCase : Bool) (a b : Char) : Bool :=
  a == b || (ignoreCase && a.toLower == b.toLower)

/-- A character is in one of the ranges, perhaps but for its case. -/
def among (ignoreCase inside : Bool) (ranges : List (Char × Char)) (c : Char) : Bool :=
  let isIn (c : Char) := ranges.any fun (a, b) => a ≤ c && c ≤ b
  (isIn c || (ignoreCase && (isIn c.toLower || isIn c.toUpper))) == inside

/-- The longer of two ways to fit. -/
def longer : Option (Nat × Groups) → Option (Nat × Groups) → Option (Nat × Groups)
  | some a, some b => if a.1 < b.1 then some b else some a
  | none, b => b
  | a, none => a

/-- Whether an expression fits at a place of a text and what is wanted fits behind it. -/
def fitsAt (ignoreCase : Bool) (s : Array Char) :
    Nat → Regex → Nat → Groups → (Nat → Groups → Option (Nat × Groups)) → Option (Nat × Groups)
  | 0, _, _, _, _ => none
  | fuel + 1, r, i, groups, behind =>
      let one (isFit : Char → Bool) : Option (Nat × Groups) :=
        match s[i]? with
        | some c => if isFit c then behind (i + 1) groups else none
        | none => none
      match r with
      | nothing => behind i groups
      | exactly a => one (sameChar ignoreCase a)
      | anyOne => one fun _ => true
      | oneOf inside ranges => one (among ignoreCase inside ranges)
      | atStart => if i = 0 then behind i groups else none
      | atEnd => if i = s.size then behind i groups else none
      | wordEdge =>
          let isWord (c? : Option Char) := (c?.map isWordChar).getD false
          let before := if i = 0 then none else s[i - 1]?
          if isWord before != isWord s[i]? then behind i groups else none
      | group n inner =>
          fitsAt ignoreCase s fuel inner i groups fun j groups => behind j ((n, i, j) :: groups)
      | again n =>
          match groups.lookup n with
          | some (a, b) =>
              let text := s.extract a b
              if s.extract i (i + text.size) == text then behind (i + text.size) groups else none
          | none => none
      | inOrder a b =>
          fitsAt ignoreCase s fuel a i groups fun j groups =>
            fitsAt ignoreCase s fuel b j groups behind
      | either a b =>
          longer (fitsAt ignoreCase s fuel a i groups behind)
            (fitsAt ignoreCase s fuel b i groups behind)
      | repeated least most inner =>
          let more :=
            if most = some 0 then none
            else fitsAt ignoreCase s fuel inner i groups fun j groups =>
              if j = i && least = 0 then none
              else fitsAt ignoreCase s fuel (repeated (least - 1) (most.map (· - 1)) inner) j
                groups behind
          match more with
          | some found => some found
          | none => if least = 0 then behind i groups else none

/-- Where an expression fits from a place on: where it starts and ends, and its groups. -/
def find? (r : Regex) (ignoreCase : Bool) (s : Array Char) (first : Nat) :
    Option (Nat × Nat × Groups) :=
  (List.range' first (s.size + 1 - first)).findSome? fun i =>
    (fitsAt ignoreCase s (64 * (s.size + 64)) r i [] fun j groups => some (j, groups)).map
      fun (j, groups) => (i, j, groups)

/-! ### Reading -/

/-- What is being read: what is left, and how many groups have been opened. -/
structure Source where
  rest : List Char
  groups : Nat := 0

/-- Named classes of characters. -/
def classes : List (String × List (Char × Char)) := [
  ("alpha", [('a', 'z'), ('A', 'Z')]),
  ("digit", [('0', '9')]),
  ("alnum", [('a', 'z'), ('A', 'Z'), ('0', '9')]),
  ("upper", [('A', 'Z')]),
  ("lower", [('a', 'z')]),
  ("space", [(' ', ' '), ('\t', '\r')]),
  ("blank", [(' ', ' '), ('\t', '\t')]),
  ("punct", [('!', '/'), (':', '@'), ('[', '\x60'), ('\x7b', '~')]),
  ("xdigit", [('0', '9'), ('a', 'f'), ('A', 'F')])]

/-- The ranges in brackets, and what follows them. -/
def rangesFrom : Nat → Bool → List Char → Option (List (Char × Char) × List Char)
  | 0, _, _ => none
  | _, _, [] => none
  | fuel + 1, isFirst, '[' :: ':' :: s =>
      let name := s.takeWhile Char.isAlpha
      match classes.lookup (String.ofList name), s.drop name.length with
      | some ranges, ':' :: ']' :: rest =>
          (rangesFrom fuel false rest).map fun (more, t) => (ranges ++ more, t)
      | _, _ => (rangesFrom fuel isFirst (':' :: s)).map fun (more, t) => (('[', '[') :: more, t)
  | fuel + 1, isFirst, c :: s =>
      if c = ']' && !isFirst then some ([], s)
      else match s with
        | '-' :: b :: t =>
            if b = ']' then (rangesFrom fuel false s).map fun (more, t) => ((c, c) :: more, t)
            else (rangesFrom fuel false t).map fun (more, t) => ((c, b) :: more, t)
        | _ => (rangesFrom fuel false s).map fun (more, t) => ((c, c) :: more, t)

/-- What a letter behind a backslash stands for. -/
def letter (c : Char) : Regex :=
  match c with
  | 'n' => exactly '\n'
  | 't' => exactly '\t'
  | 'w' => oneOf true [('a', 'z'), ('A', 'Z'), ('0', '9'), ('_', '_')]
  | 'W' => oneOf false [('a', 'z'), ('A', 'Z'), ('0', '9'), ('_', '_')]
  | 's' => oneOf true [(' ', ' '), ('\t', '\r')]
  | 'S' => oneOf false [(' ', ' '), ('\t', '\r')]
  | 'b' => wordEdge
  | '<' => wordEdge
  | '>' => wordEdge
  | c => if c.isDigit then again (c.toNat - '0'.toNat) else exactly c

/-- The bounds in braces, and what follows them. -/
def bounds? (close : List Char) (s : List Char) : Option (Nat × Option Nat × List Char) :=
  let least := s.takeWhile Char.isDigit
  let n := ((String.ofList least).toNat?).getD 0
  match s.drop least.length with
  | ',' :: rest =>
      let most := rest.takeWhile Char.isDigit
      let rest := rest.drop most.length
      if close.isPrefixOf rest then some (n, (String.ofList most).toNat?, rest.drop close.length)
      else none
  | rest => if close.isPrefixOf rest then some (n, some n, rest.drop close.length) else none

mutual

/-- Reads alternatives. -/
def readEither (isExtended : Bool) : Nat → Source → Option (Regex × Source)
  | 0, _ => none
  | fuel + 1, s => do
      let (a, s) ← readOrder isExtended fuel true s
      let bar := if isExtended then ['|'] else ['\\', '|']
      if bar.isPrefixOf s.rest then
        let (b, s) ← readEither isExtended fuel { s with rest := s.rest.drop bar.length }
        return (either a b, s)
      return (a, s)

/-- Reads what fits one after the other. -/
def readOrder (isExtended : Bool) : Nat → Bool → Source → Option (Regex × Source)
  | 0, _, _ => none
  | fuel + 1, isFirst, s => do
      let bar := if isExtended then ['|'] else ['\\', '|']
      let close := if isExtended then [')'] else ['\\', ')']
      if s.rest = [] || bar.isPrefixOf s.rest || close.isPrefixOf s.rest then return (nothing, s)
      let (a, s) ← readOne isExtended fuel isFirst s
      let (a, s) ← readRepeats isExtended fuel a s
      let (b, s) ← readOrder isExtended fuel false s
      return (inOrder a b, s)

/-- Reads what an expression can repeat. -/
def readOne (isExtended : Bool) : Nat → Bool → Source → Option (Regex × Source)
  | 0, _, _ => none
  | fuel + 1, isFirst, s => do
      let opening := if isExtended then ['('] else ['\\', '(']
      let close := if isExtended then [')'] else ['\\', ')']
      if opening.isPrefixOf s.rest then
        let n := s.groups + 1
        let (inner, s) ← readEither isExtended fuel ⟨s.rest.drop opening.length, n⟩
        if close.isPrefixOf s.rest then
          return (group n inner, { s with rest := s.rest.drop close.length })
        none
      match s.rest with
      | '.' :: rest => return (anyOne, { s with rest })
      | '^' :: rest => return (if isExtended || isFirst then atStart else exactly '^', { s with rest })
      | '$' :: rest =>
          let isLast := isExtended || rest = [] || close.isPrefixOf rest
          return (if isLast then atEnd else exactly '$', { s with rest })
      | '[' :: '^' :: rest => do
          let (ranges, rest) ← rangesFrom (rest.length + 1) true rest
          return (oneOf false ranges, { s with rest })
      | '[' :: rest => do
          let (ranges, rest) ← rangesFrom (rest.length + 1) true rest
          return (oneOf true ranges, { s with rest })
      | '\\' :: c :: rest => return (letter c, { s with rest })
      | c :: rest => return (exactly c, { s with rest })
      | [] => return (nothing, s)

/-- Reads how often an expression is repeated. -/
def readRepeats (isExtended : Bool) : Nat → Regex → Source → Option (Regex × Source)
  | 0, r, s => some (r, s)
  | fuel + 1, r, s =>
      let goOn (least : Nat) (most : Option Nat) (rest : List Char) : Option (Regex × Source) :=
        readRepeats isExtended fuel (repeated least most r) { s with rest }
      let bounded (close rest : List Char) : Option (Regex × Source) :=
        (bounds? close rest).bind fun (least, most, rest) => goOn least most rest
      match isExtended, s.rest with
      | _, '*' :: rest => goOn 0 none rest
      | true, '+' :: rest => goOn 1 none rest
      | true, '?' :: rest => goOn 0 (some 1) rest
      | true, '\x7b' :: rest => bounded ['\x7d'] rest
      | false, '\\' :: '+' :: rest => goOn 1 none rest
      | false, '\\' :: '?' :: rest => goOn 0 (some 1) rest
      | false, '\\' :: '\x7b' :: rest => bounded ['\\', '\x7d'] rest
      | _, _ => some (r, s)

end

/-- The expression that a text is. -/
def ofText? (isExtended : Bool) (text : String) : Option Regex := do
  let (r, s) ← readEither isExtended (8 * text.length + 16) ⟨text.toList, 0⟩
  if s.rest = [] then return r else none

/-- The expression that fits a text and nothing else. -/
def literal (text : String) : Regex :=
  text.toList.foldr (fun c r => inOrder (exactly c) r) nothing

end Regex

end Workbench.Text
