/-
# Reading words

A word goes on to the next blank or operator that is not in quotes. A backslash takes
its meaning from the character after it, single quotes from all characters up to the next
one; double quotes leave theirs to variables, to scripts and to backslashes before them.

* `parts` — the parts of a word that a text starts with.
-/

import Workbench.Shell.Syntax

namespace Workbench.Shell

/-- Something is opened and not closed: what should close it, and the text from the
opening on. -/
structure Unclosed where
  closing : Char
  start : List Char

/-- Puts a part before others; texts that belong together are joined. -/
def Part.before (p : Part) (w : Word) : Word :=
  match p, w with
  | .plain a isQuoted, .plain b isQuoted' :: rest =>
      if isQuoted == isQuoted' then .plain (a ++ b) isQuoted :: rest else p :: w
  | _, _ => p :: w

/-! ### Finding what closes -/

/-- What stands before an apostrophe or another mark, and what after it; a backslash
keeps the next character from being one, if it may. -/
def upTo? (mark : Char) (hasEscapes : Bool) : List Char → Option (List Char × List Char)
  | [] => none
  | '\\' :: c :: rest =>
      if hasEscapes then (upTo? mark hasEscapes rest).map fun (a, b) => ('\\' :: c :: a, b)
      else if mark = '\\' then some ([], c :: rest)
      else if mark = c then some (['\\'], rest)
      else (upTo? mark hasEscapes (c :: rest)).map fun (a, b) => ('\\' :: a, b)
  | c :: rest =>
      if c = mark then some ([], rest)
      else (upTo? mark hasEscapes rest).map fun (a, b) => (c :: a, b)

/-- What stands before the bracket that closes an opened one, and what after it; `mode`
tells by which quote a text is quoted, and `depth` how many brackets are open in it. -/
def closed? (opening closing : Char) (mode : Option Char) (depth : Nat) :
    List Char → Option (List Char × List Char)
  | [] => none
  | '\\' :: c :: rest =>
      if mode = some '\'' then
        if c = '\'' then
          (closed? opening closing none depth rest).map fun (a, b) => ('\\' :: c :: a, b)
        else (closed? opening closing mode depth rest).map fun (a, b) => ('\\' :: c :: a, b)
      else (closed? opening closing mode depth rest).map fun (a, b) => ('\\' :: c :: a, b)
  | c :: rest =>
      let more (mode : Option Char) (depth : Nat) :=
        (closed? opening closing mode depth rest).map fun (a, b) => (c :: a, b)
      match mode with
      | some quote => if c = quote then more none depth else more mode depth
      | none =>
          if c = '\'' || c = '"' then more (some c) depth
          else if c = opening then more mode (depth + 1)
          else if c = closing then
            match depth with
            | 0 => some ([], rest)
            | depth + 1 => more mode depth
          else more mode depth

/-! ### Names and operators -/

/-- A character can start a name. -/
def startsName (c : Char) : Bool :=
  c.isAlpha || c == '_'

/-- A character can stand in a name. -/
def isNameChar (c : Char) : Bool :=
  c.isAlphanum || c == '_'

/-- The operators that change the value of a variable, longer ones first. -/
def changes : List String :=
  [":-", ":=", ":?", ":+", "##", "%%", "//", "/#", "/%", "^^", ",,", "-", "=", "?", "+", "#",
    "%", "/", "^", ",", ":"]

/-- The change that a text starts with, and its operand. -/
def changeOf (s : List Char) : String × List Char :=
  if s = [] then ("", [])
  else match changes.find? fun change => change.toList.isPrefixOf s with
    | some change => (change, s.drop change.length)
    | none => ("bad", s)

/-- The name, the change and the operand that stand in braces. -/
def bracedOf (s : List Char) : String × String × List Char :=
  let nameOf (s : List Char) : List Char × List Char :=
    match s with
    | c :: rest =>
        if isNameChar c then (s.takeWhile isNameChar, s.dropWhile isNameChar)
        else ([c], rest)
    | [] => ([], [])
  match s with
  | ['#'] => ("#", "", [])
  | '#' :: rest =>
      let (name, more) := nameOf rest
      if more = [] then (String.ofList name, "length", []) else ("", "bad", s)
  | '!' :: c :: rest =>
      let (name, more) := nameOf (c :: rest)
      if more = [] then (String.ofList name, "indirect", []) else ("", "bad", s)
  | _ =>
      let (name, rest) := nameOf s
      let (change, operand) := changeOf rest
      (String.ofList name, change, operand)

/-- What a letter behind a backslash stands for. -/
def controlOf (c : Char) : Option Char :=
  match c with
  | 'n' => some '\n'
  | 't' => some '\t'
  | 'r' => some '\r'
  | 'a' => some '\x07'
  | 'b' => some '\x08'
  | 'f' => some '\x0c'
  | 'v' => some '\x0b'
  | 'e' => some '\x1b'
  | 'E' => some '\x1b'
  | '\\' => some '\\'
  | '\'' => some '\''
  | '"' => some '"'
  | '?' => some '?'
  | _ => none

/-- The number that digits are to a base. -/
def toNumber (base : Nat) (digits : List Char) : Nat :=
  let value (c : Char) : Nat :=
    if c.isDigit then c.toNat - '0'.toNat else c.toLower.toNat - 'a'.toNat + 10
  digits.foldl (fun n c => base * n + value c) 0

/-- The byte that digits are to a base. -/
def ofDigits (base : Nat) (digits : List Char) : Char :=
  Char.ofNat (toNumber base digits % 256)

/-- A digit to base 8. -/
def isOctal (c : Char) : Bool :=
  '0' ≤ c && c ≤ '7'

/-- A digit to base 16. -/
def isHex (c : Char) : Bool :=
  c.isDigit || ('a' ≤ c && c ≤ 'f') || ('A' ≤ c && c ≤ 'F')

mutual

/-- A text behind a backslash and a letter that start the number of a character. Only
characters that are one byte have one that is known; others stay numbers. -/
def coded (letter : Char) (most fuel : Nat) (s : List Char) : List Char :=
  match (s.take most).takeWhile isHex with
  | [] => '\\' :: letter :: controls fuel s
  | digits =>
      let n := toNumber 16 digits
      let places := if n < Nat.pow 2 16 then 4 else 8
      let shown := (Nat.toDigits 16 n).map Char.toUpper
      let text := if n < 128 then [Char.ofNat n]
        else '\\' :: (if places = 4 then 'u' else 'U') :: List.replicate (places - shown.length) '0' ++ shown
      text ++ controls fuel (s.drop digits.length)
termination_by (fuel, 1)

/-- A text in which backslashes give letters and digits a meaning. -/
def controls : Nat → List Char → List Char
  | 0, s => s
  | _, [] => []
  | fuel + 1, '\\' :: 'x' :: s =>
      match (s.take 2).takeWhile isHex with
      | [] => '\\' :: 'x' :: controls fuel s
      | digits => ofDigits 16 digits :: controls fuel (s.drop digits.length)
  | fuel + 1, '\\' :: 'u' :: s => coded 'u' 4 fuel s
  | fuel + 1, '\\' :: 'U' :: s => coded 'U' 8 fuel s
  | fuel + 1, '\\' :: c :: s =>
      match (c :: s.take 2).takeWhile isOctal with
      | [] =>
          match controlOf c with
          | some control => control :: controls fuel s
          | none => '\\' :: c :: controls fuel s
      | digits => ofDigits 8 digits :: controls fuel ((c :: s).drop digits.length)
  | fuel + 1, c :: s => c :: controls fuel s
termination_by fuel => (fuel, 0)

end

/-! ### Parts -/

/-- A script in backquotes without the backslashes that keep its own marks. -/
def unescaped : List Char → List Char
  | '\\' :: c :: rest =>
      if c = '\x60' || c = '\\' || c = '$' then c :: unescaped rest
      else '\\' :: c :: unescaped rest
  | c :: rest => c :: unescaped rest
  | [] => []

/-- The parts of a word that a text starts with, up to a character where it stops;
`isDouble` tells that it is in double quotes. -/
def parts : Nat → (Char → Bool) → Bool → List Char → Except Unclosed (Word × List Char)
  | 0, _, _, s => .ok ([], s)
  | _, _, _, [] => .ok ([], [])
  | fuel + 1, stops, isDouble, c :: s => do
      if stops c then return ([], c :: s)
      let start := c :: s
      let goOn (p : Part) (rest : List Char) : Except Unclosed (Word × List Char) := do
        let (w, rest) ← parts fuel stops isDouble rest
        return (p.before w, rest)
      let whole (text : List Char) : Except Unclosed Word := do
        return (← parts fuel (fun _ => false) true text).1
      match c, s with
      | '\\', [] => goOn (.plain "\\" isDouble) []
      | '\\', x :: rest =>
          if x = '\n' then parts fuel stops isDouble rest
          else if isDouble && !(['$', '\x60', '"', '\\'].contains x) then goOn (.plain "\\" true) s
          else goOn (.plain (String.singleton x) true) rest
      | '\'', _ =>
          if isDouble then goOn (.plain "'" true) s
          else match upTo? '\'' false s with
            | some (text, rest) => goOn (.plain (String.ofList text) true) rest
            | none => throw ⟨'\'', start⟩
      | '"', _ =>
          let (inner, rest) ← parts fuel (· == '"') true s
          match rest with
          | '"' :: rest =>
              let (w, rest) ← parts fuel stops isDouble rest
              return ((if inner = [] then [.plain "" true] else inner).foldr Part.before w, rest)
          | _ => throw ⟨'"', start⟩
      | '\x60', _ =>
          match upTo? '\x60' true s with
          | some (script, rest) =>
              goOn (.output (String.ofList (unescaped script)) isDouble) rest
          | none => throw ⟨'\x60', start⟩
      | '$', '(' :: rest =>
          match closed? '(' ')' none 0 rest with
          | none => throw ⟨')', []⟩
          | some (inner, rest) =>
              match inner, inner.getLast? with
              | '(' :: text, some ')' =>
                  goOn (.arithmetic (← whole text.dropLast) isDouble) rest
              | _, _ => goOn (.output (String.ofList inner) isDouble) rest
      | '$', '\x7b' :: rest =>
          match closed? '\x7b' '\x7d' none 0 rest with
          | none => throw ⟨'\x7d', start⟩
          | some (inner, rest) =>
              let (name, change, operand) := bracedOf inner
              let (operand, _) ← parts fuel (fun _ => false) isDouble operand
              goOn (.variable name change operand isDouble) rest
      | '$', '\'' :: rest =>
          if isDouble then goOn (.plain "$" true) s
          else match upTo? '\'' true rest with
            | some (text, rest) =>
                goOn (.plain (String.ofList (controls (text.length + 1) text)) true) rest
            | none => throw ⟨'\'', start⟩
      | '$', x :: rest =>
          if x = '"' && !isDouble then parts fuel stops isDouble s
          else if startsName x then
            goOn (.variable (String.ofList (s.takeWhile isNameChar)) "" [] isDouble)
              (s.dropWhile isNameChar)
          else if x.isDigit || ['?', '$', '!', '#', '@', '*', '-'].contains x then
            goOn (.variable (String.singleton x) "" [] isDouble) rest
          else goOn (.plain "$" isDouble) s
      | _, _ => goOn (.plain (String.singleton c) isDouble) s

end Workbench.Shell
