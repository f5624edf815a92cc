/-
# Reading scripts

A script is read command by command: each is read to the end of its line, and run before
the next one is looked at. What stands on the lines below a command can so be taken as
input by the command itself.

* `Reading.command?` — the next command of a script.
-/

import Workbench.Shell.Word

namespace Workbench.Shell

/-- How far a script is read: what is left, the number of the line, the text from the
start of the line on, and how many lines of documents follow this one. -/
structure Reading where
  rest : List Char
  line : Nat := 1
  lineStart : List Char
  documentLines : Nat := 0
  /-- What there is to be said of documents that have no end. -/
  warnings : List String := []

/-- Reads a part of a script; a script that is none is told of by lines. -/
abbrev Reader := StateT Reading (Except (List String))

namespace Reader

/-- What follows at a place in a script. -/
inductive Ahead where
  | finish
  | mark (text : String)
  | word
  deriving DecidableEq, Repr

/-- The operators, longer ones first. -/
def marks : List String :=
  ["&>>", "<<<", "<<-", "&&", "||", ";;", "&>", "<<", "<&", "<>", ">>", ">&", ">|", "|&",
    "|", "&", ";", "<", ">", "(", ")", "\n"]

/-- A character ends a word. -/
def endsWord (c : Char) : Bool :=
  [' ', '\t', '\n', ';', '&', '|', '(', ')', '<', '>'].contains c

/-- Goes on at a later place of the script. -/
def moveTo (rest : List Char) : Reader Unit :=
  modify fun r =>
    let passed := r.rest.take (r.rest.length - rest.length)
    match passed.reverse.takeWhile (· != '\n') with
    | tail =>
        if tail.length = passed.length then { r with rest }
        else
          { r with
            rest
            line := r.line + passed.count '\n'
            lineStart := tail.reverse ++ rest }

/-- Goes on behind a newline, and behind the documents that follow it. -/
def passNewline : Reader Unit :=
  modify fun r =>
    { r with
      rest := r.rest.drop 1
      line := r.line + 1 + r.documentLines
      lineStart := r.rest.drop 1
      documentLines := 0 }

/-- The text behind blanks, continued lines and a comment. -/
def afterBlanks : List Char → List Char
  | ' ' :: s => afterBlanks s
  | '\t' :: s => afterBlanks s
  | '\\' :: '\n' :: s => afterBlanks s
  | '#' :: s => s.dropWhile (· != '\n')
  | s => s

/-- What follows. -/
def ahead : Reader Ahead := do
  moveTo (afterBlanks (← get).rest)
  match (← get).rest with
  | [] => return .finish
  | s => return ((marks.find? fun m => m.toList.isPrefixOf s).map Ahead.mark).getD .word

/-- Goes on behind an operator that follows. -/
def passMark (mark : String) : Reader Unit := do
  if mark = "\n" then passNewline else moveTo ((← get).rest.drop mark.length)

/-- Stops because the script ends too soon. -/
def stopAtEnd {α : Type} : Reader α := do
  throw ["line " ++ toString (← get).line ++ ": syntax error: unexpected end of file"]

/-- Stops because of what follows. -/
def stopHere {α : Type} : Reader α := do
  let r ← get
  let told (token : String) : List String :=
    ["line " ++ toString r.line ++ ": syntax error near unexpected token \x60" ++ token ++ "'",
      "line " ++ toString r.line ++ ": \x60" ++
        String.ofList (r.lineStart.takeWhile (· != '\n')) ++ "'"]
  match ← ahead with
  | .finish => stopAtEnd
  | .mark "\n" => throw (told "newline")
  | .mark m => throw (told m)
  | .word => throw (told (String.ofList (r.rest.takeWhile fun c => !endsWord c)))

/-- Reads a word. -/
def word : Reader Word := do
  let r ← get
  match parts (r.rest.length + 1) endsWord false r.rest with
  | .ok (w, rest) => moveTo rest; return w
  | .error u =>
      let line :=
        if u.closing = ')' then r.line + r.rest.count '\n'
        else r.line + (r.rest.take (r.rest.length - u.start.length)).count '\n'
      throw ["line " ++ toString line ++ ": unexpected EOF while looking for matching \x60" ++
        String.singleton u.closing ++ "'"]

/-- The plain text of the word that follows, if it is nothing else. -/
def keyword? : Reader (Option String) := do
  match ← ahead with
  | .word => do
      let r ← get
      match parts (r.rest.length + 1) endsWord false r.rest with
      | .ok (w, _) => return w.text?
      | .error _ => return none
  | _ => return none

/-- Reads a keyword, or stops. -/
def expect (text : String) : Reader Unit := do
  if (← keyword?) = some text then moveTo ((← get).rest.drop text.length)
  else stopHere

/-- Reads an operator, or stops. -/
def expectMark (mark : String) : Reader Unit := do
  if (← ahead) = .mark mark then passMark mark else stopHere

/-- Passes newlines. -/
def newlines : Nat → Reader Unit
  | 0 => return
  | fuel + 1 => do
      if (← ahead) = .mark "\n" then
        passNewline
        newlines fuel

/-! ### Redirections -/

/-- The plain text of a word that ends a document, and whether the word is in quotes. -/
def endOf (w : Word) : String × Bool :=
  (String.join (w.map fun
    | .plain text _ => text
    | _ => ""),
   w.any fun
    | .plain _ isQuoted => isQuoted
    | _ => false)

/-- The lines of a document up to its end, whether it has one, and the lines behind. -/
def documentIn (finish : String) (areTabsDropped : Bool) :
    List (List Char) → List (List Char) × Bool × List (List Char)
  | [] => ([], false, [])
  | line :: rest =>
      let line := if areTabsDropped then line.dropWhile (· == '\t') else line
      if String.ofList line = finish then ([], true, rest)
      else
        let (lines, isEnded, rest) := documentIn finish areTabsDropped rest
        (line :: lines, isEnded, rest)

/-- Characters by lines; a newline at the end ends the last line. -/
def linesOf : List Char → List (List Char)
  | [] => []
  | c :: rest =>
      if c = '\n' then [] :: linesOf rest
      else match linesOf rest with
        | line :: others => (c :: line) :: others
        | [] => [[c]]

/-- Takes the document with this end out of the lines that follow this one. -/
def document (finish : Word) (areTabsDropped : Bool) : Reader Word := do
  let r ← get
  let (text, isQuoted) := endOf finish
  let here := r.rest.takeWhile (· != '\n')
  let below := (r.rest.dropWhile (· != '\n')).drop 1
  let (lines, isEnded, behind) := documentIn text areTabsDropped (linesOf below)
  let count := lines.length + if isEnded then 1 else 0
  let content := lines.flatMap (· ++ ['\n'])
  let left := behind.flatMap (· ++ ['\n'])
  let left := if behind != [] && r.rest.getLast? != some '\n' then left.dropLast else left
  set { r with
    rest := here ++ ['\n'] ++ left
    documentLines := r.documentLines + count
    warnings := r.warnings ++ if isEnded then [] else
      ["line " ++ toString (r.line + r.documentLines + count) ++ ": warning: here-document at line " ++
        toString r.line ++ " delimited by end-of-file (wanted \x60" ++ text ++ "')"] }
  if isQuoted then return [.plain (String.ofList content) true]
  else match parts (content.length + 1) (fun _ => false) true content with
    | .ok (w, _) => return w
    | .error _ => return [.plain (String.ofList content) true]

/-- Reads the word of a redirection. -/
def target : Reader Word := do
  match ← ahead with
  | .word => word
  | _ => stopHere

/-- Reads a redirection, if one follows; the number of a stream stands right before it. -/
def redirection? : Reader (Option Redirection) := do
  let next ← ahead
  let r ← get
  let digits := r.rest.takeWhile Char.isDigit
  let after := r.rest.drop digits.length
  let mark? :=
    match next with
    | .mark m => some m
    | .word => if digits = [] then none else
        (marks.find? fun (m : String) => m.toList.isPrefixOf after).filter fun m =>
          m.startsWith "<" || m.startsWith ">"
    | .finish => none
  let number := (String.ofList digits).toNat?
  match mark? with
  | none => return none
  | some m =>
      let goOn (standard : List Nat) (opening : Opening) : Reader (Option Redirection) := do
        moveTo (after.drop m.length)
        let w ← target
        return some ⟨(number.map fun n => [n]).getD standard, opening, w⟩
      match m with
      | "<" => goOn [0] .read
      | ">" => goOn [1] .write
      | ">|" => goOn [1] .write
      | ">>" => goOn [1] .append
      | "&>" => goOn [1, 2] .write
      | "&>>" => goOn [1, 2] .append
      | "<&" => goOn [0] .copy
      | "<<<" => goOn [0] .line
      | ">&" => do
          moveTo (after.drop m.length)
          let w ← target
          match w.text? with
          | some text =>
              if text.all Char.isDigit || text = "-" then return some ⟨[number.getD 1], .copy, w⟩
              else return some ⟨[1, 2], .write, w⟩
          | none => return some ⟨[number.getD 1], .copy, w⟩
      | "<<" => do
          moveTo (after.drop m.length)
          return some ⟨[number.getD 0], .document, ← document (← target) false⟩
      | "<<-" => do
          moveTo (after.drop m.length)
          return some ⟨[number.getD 0], .document, ← document (← target) true⟩
      | _ => return none

/-- Reads the redirections that follow. -/
def redirections : Nat → Reader (List Redirection)
  | 0 => return []
  | fuel + 1 => do
      match ← redirection? with
      | some r => return r :: (← redirections fuel)
      | none => return []

/-! ### Commands -/

/-- Words that do not start a command. -/
def reserved : List String :=
  ["then", "else", "elif", "fi", "do", "done", "esac", "\x7d", "in"]

/-- Words that start a command that can be the body of a function. -/
def bodies : List String :=
  ["\x7b", "if", "while", "until", "for", "case", "[["]

/-- Reads words and redirections. -/
def wordsFrom : Nat → Reader (List Word × List Redirection)
  | 0 => return ([], [])
  | fuel + 1 => do
      match ← redirection? with
      | some r =>
          let (ws, rs) ← wordsFrom fuel
          return (ws, r :: rs)
      | none =>
          match ← ahead with
          | .word =>
              let w ← word
              let (ws, rs) ← wordsFrom fuel
              return (w :: ws, rs)
          | _ => return ([], [])

/-- Reads words to the end of a list of them. -/
def listedWords : Nat → Reader (List Word)
  | 0 => return []
  | fuel + 1 => do
      match ← ahead with
      | .word => return (← word) :: (← listedWords fuel)
      | _ => return []

/-- Reads the words of a condition. -/
def conditionWords : Nat → Reader (List Word)
  | 0 => return []
  | fuel + 1 => do
      match ← ahead with
      | .finish => do
          let start := "line " ++ toString (← get).line
          throw [start ++ ": unexpected token \x60EOF' in conditional command",
            start ++ ": syntax error: unexpected end of file"]
      | .mark "\n" => do passNewline; conditionWords fuel
      | .mark m => do
          passMark m
          return [.plain m false] :: (← conditionWords fuel)
      | .word =>
          let w ← word
          if w.text? = some "]]" then return [] else return w :: (← conditionWords fuel)

/-- The parts of a text in which only what stands for something else counts. -/
def textParts (s : List Char) : Word :=
  match parts (s.length + 1) (fun _ => false) true s with
  | .ok (w, _) => w
  | .error _ => [.plain (String.ofList s) true]

/-- Reads what stands in two brackets up to the ones that close. -/
def inTwoBrackets : Reader (List Char) := do
  match closed? '(' ')' none 0 ((← get).rest.drop 1) with
  | some (inner, rest) =>
      match inner, inner.getLast? with
      | '(' :: text, some ')' => do moveTo rest; return text.dropLast
      | _, _ => stopHere
  | none => throw ["line " ++ toString (← get).line ++
      ": unexpected EOF while looking for matching \x60)'"]

/-- A text at its semicolons. -/
def atSemicolons : List Char → List (List Char)
  | [] => [[]]
  | c :: rest =>
      match atSemicolons rest with
      | part :: others => if c = ';' then [] :: part :: others else (c :: part) :: others
      | [] => [[c]]

mutual

/-- Reads a command. -/
def command : Nat → Reader Command
  | 0 => stopHere
  | fuel + 1 => do
      let finish (c : Command) : Reader Command := do
        match ← redirections fuel with
        | [] => return c
        | rs => return .redirected c rs
      match ← ahead with
      | .mark "(" => do
          let r ← get
          if r.rest.drop 1 |>.head? |> (· == some '(') then
            let text ← inTwoBrackets
            return ← finish (.compute r.line (textParts text))
          moveTo (r.rest.drop 1)
          let body ← commands fuel
          expectMark ")"
          finish (.apart body)
      | .word => do
          match ← keyword? with
          | some "\x7b" => do
              expect "\x7b"
              let body ← commands fuel
              expect "\x7d"
              finish body
          | some "if" => do
              expect "if"
              finish (← branches fuel)
          | some "while" => do
              expect "while"
              finish (← loopOf fuel true)
          | some "until" => do
              expect "until"
              finish (← loopOf fuel false)
          | some "for" => do
              expect "for"
              finish (← forLoop fuel)
          | some "case" => do
              expect "case"
              let subject ← target
              newlines fuel
              expect "in"
              finish (.choice subject (← arms fuel))
          | some "[[" => do
              let line := (← get).line
              expect "[["
              let start := (← get).lineStart
              match ← conditionWords fuel with
              | [] => throw ["line " ++ toString line ++ ": syntax error near \x60]]'",
                  "line " ++ toString line ++ ": \x60" ++
                    String.ofList (start.takeWhile (· != '\n')) ++ "'"]
              | words => finish (.condition line words)
          | some "function" => do
              expect "function"
              let name ← target
              if (← ahead) = .mark "(" then
                passMark "("
                expectMark ")"
              newlines fuel
              return .define (name.text?.getD "") (← command fuel)
          | keyword =>
              if (keyword.map reserved.contains).getD false then stopHere
              else simple fuel
      | .mark _ => do
          match ← redirection? with
          | some r => do
              let line := (← get).line
              let (ws, rs) ← wordsFrom fuel
              return .simple line ws (r :: rs)
          | none => stopHere
      | .finish => stopAtEnd

/-- Reads a command of words, or the definition of a function. -/
def simple : Nat → Reader Command
  | 0 => stopHere
  | fuel + 1 => do
      match ← redirection? with
      | some r => do
          let line := (← get).line
          let (ws, rs) ← wordsFrom fuel
          return .simple line ws (r :: rs)
      | none => do
          let first ← word
          let next ← ahead
          let line := (← get).line
          if next = .mark "(" then
            if first.text?.isNone then return ← stopHere
            passMark "("
            expectMark ")"
            newlines fuel
            if (← ahead) != .mark "(" && !((← keyword?).map bodies.contains).getD false then
              return ← stopHere
            return .define (first.text?.getD "") (← command fuel)
          let (ws, rs) ← wordsFrom fuel
          return .simple line (first :: ws) rs

/-- Reads the branches of a choice by success. -/
def branches : Nat → Reader Command
  | 0 => stopHere
  | fuel + 1 => do
      let test ← commands fuel
      expect "then"
      let yes ← commands fuel
      match ← keyword? with
      | some "elif" => do
          expect "elif"
          return .branch test yes (← branches fuel)
      | some "else" => do
          expect "else"
          let no ← commands fuel
          expect "fi"
          return .branch test yes no
      | _ => do
          expect "fi"
          return .branch test yes .nothing

/-- Reads the body of a loop. -/
def bodyOf : Nat → Reader Command
  | 0 => stopHere
  | fuel + 1 => do
      expect "do"
      let body ← commands fuel
      expect "done"
      return body

/-- Reads a loop with a test. -/
def loopOf : Nat → Bool → Reader Command
  | 0, _ => stopHere
  | fuel + 1, onSuccess => do
      let test ← commands fuel
      return .loop onSuccess test (← bodyOf fuel)

/-- Reads a loop over words, or one that counts. -/
def forLoop : Nat → Reader Command
  | 0 => stopHere
  | fuel + 1 => do
      if (← ahead) = .mark "(" then
        let line := (← get).line
        match atSemicolons (← inTwoBrackets) with
        | [start, test, step] => do
            if (← ahead) = .mark ";" then passMark ";"
            newlines fuel
            return .count line (textParts start) (textParts test) (textParts step) (← bodyOf fuel)
        | _ => stopHere
      else
        let name ← target
        newlines fuel
        let words ←
          if (← keyword?) = some "in" then do
            expect "in"
            pure (some (← listedWords fuel))
          else pure none
        if (← ahead) = .mark ";" then passMark ";"
        newlines fuel
        return .forEach (name.text?.getD "") words (← bodyOf fuel)

/-- Reads the patterns of an arm. -/
def patterns : Nat → Reader (List Word)
  | 0 => return []
  | fuel + 1 => do
      let w ← target
      if (← ahead) = .mark "|" then
        passMark "|"
        return w :: (← patterns fuel)
      return [w]

/-- Reads the arms of a choice by patterns. -/
def arms : Nat → Reader (List (List Word × Command))
  | 0 => stopHere
  | fuel + 1 => do
      newlines fuel
      if (← keyword?) = some "esac" then
        expect "esac"
        return []
      if (← ahead) = .mark "(" then passMark "("
      let ws ← patterns fuel
      expectMark ")"
      newlines fuel
      let body ←
        if (← ahead) = .mark ";;" then pure .nothing
        else if (← keyword?) = some "esac" then pure .nothing
        else commands fuel
      if (← ahead) = .mark ";;" then
        passMark ";;"
        return (ws, body) :: (← arms fuel)
      newlines fuel
      expect "esac"
      return [(ws, body)]

/-- Reads commands that are joined by pipes. -/
def pipes : Nat → Reader (List Command)
  | 0 => stopHere
  | fuel + 1 => do
      let c ← command fuel
      match ← ahead with
      | .mark "|" => do
          passMark "|"
          newlines fuel
          return c :: (← pipes fuel)
      | .mark "|&" => do
          passMark "|&"
          newlines fuel
          return .redirected c [⟨[2], .copy, [.plain "1" false]⟩] :: (← pipes fuel)
      | _ => return [c]

/-- Reads a pipeline. -/
def pipeline : Nat → Reader Command
  | 0 => stopHere
  | fuel + 1 => do
      if (← keyword?) = some "!" then
        expect "!"
        match ← ahead with
        | .finish => return .pipeline true [.nothing]
        | .mark "\n" => return .pipeline true [.nothing]
        | .mark ";" => return .pipeline true [.nothing]
        | _ => return .pipeline true (← pipes fuel)
      match ← pipes fuel with
      | [c] => return c
      | cs => return .pipeline false cs

/-- Reads the commands after a first one that only success or failure leads to. -/
def chained : Nat → Command → Reader Command
  | 0, c => return c
  | fuel + 1, c => do
      match ← ahead with
      | .mark "&&" => do
          passMark "&&"
          newlines fuel
          chained fuel (.both c (← pipeline fuel))
      | .mark "||" => do
          passMark "||"
          newlines fuel
          chained fuel (.either c (← pipeline fuel))
      | _ => return c

/-- Reads commands up to a word or an operator that starts none. -/
def commands : Nat → Reader Command
  | 0 => stopHere
  | fuel + 1 => do
      newlines fuel
      let c ← chained fuel (← pipeline fuel)
      match ← ahead with
      | .mark m => do
          if m = ";" || m = "&" || m = "\n" then
            passMark m
            newlines fuel
            match ← ahead, ← keyword? with
            | .finish, _ => return c
            | .mark ")", _ => return c
            | .mark ";;", _ => return c
            | _, some text => do
                if reserved.contains text then return c
                return .inOrder c (← commands fuel)
            | _, none => return .inOrder c (← commands fuel)
          return c
      | _ => return c

/-- Reads the commands of a line. -/
def lineCommands : Nat → Reader Command
  | 0 => stopHere
  | fuel + 1 => do
      let c ← chained fuel (← pipeline fuel)
      match ← ahead with
      | .finish => return c
      | .mark "\n" => do passNewline; return c
      | .mark m => do
          if m = ";" || m = "&" then
            passMark m
            match ← ahead with
            | .finish => return c
            | .mark "\n" => do passNewline; return c
            | _ => return .inOrder c (← lineCommands fuel)
          else stopHere
      | .word => stopHere

end

end Reader

/-- The start of a script. -/
def Reading.start (script : List Char) : Reading :=
  { rest := script, lineStart := script }

/-- The next command of a script, if there is one, and how far the script is read then;
or what there is to be said of a script that is none. -/
def Reading.command? (r : Reading) : Except (List String) (Option (Command × Reading)) :=
  let fuel := 8 * r.rest.length + 64
  let read : Reader (Option Command) := do
    Reader.newlines fuel
    match ← Reader.ahead with
    | .finish => return none
    | _ => return some (← Reader.lineCommands fuel)
  match read.run r with
  | .error lines => .error lines
  | .ok (none, _) => .ok none
  | .ok (some c, r) => .ok (some (c, r))

end Workbench.Shell
