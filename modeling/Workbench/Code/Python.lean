/-
# Function definitions of Python

Reads the function definitions off a source that is valid Python. A definition
runs from `async` or `def` to the end of its body. A body on the line of the
colon ends with that line; an indented one goes on while lines are indented at
least as far as its first, and takes the comments behind it that are.

* `Python.tokens` — the tokens of a source.
* `Python.definitions` — its function definitions, in order.
-/

import Workbench.Code.Outline

namespace Workbench.Code.Python

/-- The prefixes of string literals, in lowercase. -/
def literalMarks : List String :=
  ["r", "b", "u", "f", "rb", "br", "fr", "rf"]

/-- Whether a word in front of a quote belongs to the literal. -/
def marksLiteral (word : List Char) : Bool :=
  literalMarks.contains (String.ofList (word.map Char.toLower))

/-- Whether a word in front of a quote lets the literal hold expressions. -/
def marksFormat (word : List Char) : Bool :=
  word.any fun c => c == 'f' || c == 'F'

mutual

/-- What follows a string literal of which the opening quote is read. -/
def afterLiteral (quote : Char) (triple format : Bool) : Nat → List Char → List Char
  | 0, s => s
  | _, [] => []
  | fuel + 1, c :: rest =>
      if c = '\\' then afterLiteral quote triple format fuel (rest.drop 1)
      else if c = quote then
        if triple then
          match rest with
          | d :: e :: more =>
              if d = quote ∧ e = quote then more else afterLiteral quote triple format fuel rest
          | _ => afterLiteral quote triple format fuel rest
        else rest
      else if format ∧ c = '\x7b' then
        match rest with
        | '\x7b' :: more => afterLiteral quote triple format fuel more
        | _ => afterLiteral quote triple format fuel (afterExpression fuel 0 ' ' rest)
      else afterLiteral quote triple format fuel rest

/-- What follows the brace that closes an expression inside a literal; `last` is
the character before. -/
def afterExpression : Nat → Nat → Char → List Char → List Char
  | 0, _, _, s => s
  | _, _, _, [] => []
  | fuel + 1, depth, last, c :: rest =>
      if c = '\x7d' then if depth = 0 then rest else afterExpression fuel (depth - 1) c rest
      else if c = '(' ∨ c = '[' ∨ c = '\x7b' then afterExpression fuel (depth + 1) c rest
      else if c = ')' ∨ c = ']' then afterExpression fuel (depth - 1) c rest
      else if c = '"' ∨ c = '\'' then
        let format := last == 'f' || last == 'F'
        match rest with
        | d :: e :: more =>
            if d = c ∧ e = c then
              afterExpression fuel depth c (afterLiteral c true format fuel more)
            else afterExpression fuel depth c (afterLiteral c false format fuel rest)
        | _ => afterExpression fuel depth c (afterLiteral c false format fuel rest)
      else if c = ':' ∧ depth = 0 then afterFormat fuel rest
      else afterExpression fuel depth c rest

/-- What follows the brace that closes the format of an expression. -/
def afterFormat : Nat → List Char → List Char
  | 0, s => s
  | _, [] => []
  | fuel + 1, c :: rest =>
      if c = '\x7d' then rest
      else if c = '\x7b' then afterFormat fuel (afterExpression fuel 0 c rest)
      else afterFormat fuel rest

end

/-- What follows a literal, given what starts with its opening quote. -/
def afterQuote (format : Bool) (s : List Char) : List Char :=
  match s with
  | a :: b :: c :: rest =>
      if a = b ∧ b = c then afterLiteral a true format (3 * s.length) rest
      else afterLiteral a false format (3 * s.length) (b :: c :: rest)
  | a :: rest => afterLiteral a false format (3 * s.length) rest
  | [] => []

/-- The tokens of `s`, which starts at position `at`. Inside brackets (`depth`) a
line end is no token. -/
def scan : Nat → (start depth indent : Nat) → List Char → List Token
  | 0, _, _, _, _ => []
  | _, _, _, _, [] => []
  | fuel + 1, start, depth, indent, c :: rest =>
      if c = '\n' then
        let more := scan fuel (start + 1) depth 0 rest
        if depth = 0 then ⟨.lineEnd, "", start, start + 1, indent⟩ :: more else more
      else if c = ' ' then scan fuel (start + 1) depth (indent + 1) rest
      else if c = '\t' then scan fuel (start + 1) depth (indent + 8) rest
      else if c = '\r' ∨ c = '\x0c' then scan fuel (start + 1) depth 0 rest
      else if c = '#' then
        let body := rest.takeWhile (· ≠ '\n')
        let stop := start + 1 + body.length
        ⟨.comment, "", start, stop, indent⟩ ::
          scan fuel stop depth indent (rest.drop body.length)
      else if c = '\\' then
        let blank := if rest.head? = some '\r' then 2 else 1
        scan fuel (start + 1 + blank) depth indent (rest.drop blank)
      else if c = '"' ∨ c = '\'' then
        let after := afterQuote false (c :: rest)
        let stop := start + (rest.length + 1 - after.length)
        ⟨.literal, "", start, stop, indent⟩ :: scan fuel stop depth indent after
      else if isNameChar c then
        let (name, after) := takeName (c :: rest)
        match after with
        | q :: _ =>
            if (q = '"' ∨ q = '\'') ∧ marksLiteral name then
              let behind := afterQuote (marksFormat name) after
              let stop := start + (rest.length + 1 - behind.length)
              ⟨.literal, "", start, stop, indent⟩ :: scan fuel stop depth indent behind
            else
              ⟨.word, String.ofList name, start, start + name.length, indent⟩ ::
                scan fuel (start + name.length) depth indent after
        | [] => [⟨.word, String.ofList name, start, start + name.length, indent⟩]
      else if c = '(' ∨ c = '[' ∨ c = '\x7b' then
        ⟨.mark, String.singleton c, start, start + 1, indent⟩ ::
          scan fuel (start + 1) (depth + 1) indent rest
      else if c = ')' ∨ c = ']' ∨ c = '\x7d' then
        ⟨.mark, String.singleton c, start, start + 1, indent⟩ ::
          scan fuel (start + 1) (depth - 1) indent rest
      else if 128 ≤ c.toNat then scan fuel (start + 1) depth indent rest
      else
        ⟨.mark, String.singleton c, start, start + 1, indent⟩ ::
          scan fuel (start + 1) depth indent rest

/-- The tokens of a source. -/
def tokens (source : List Char) : List Token :=
  scan source.length 0 0 0 source

/-- The tokens after the colon that opens a body. -/
def afterColon : Nat → List Token → Option (Token × List Token)
  | _, [] => none
  | depth, t :: rest =>
      if t.opens then afterColon (depth + 1) rest
      else if t.closes then afterColon (depth - 1) rest
      else if t.isMark ":" && depth == 0 then some (t, rest)
      else afterColon depth rest

/-- Where a body on one line ends: behind the last token of the line. -/
def inlineStop (last : Nat) : List Token → Nat
  | [] => last
  | t :: rest => if t.kind = .lineEnd then last else inlineStop t.stop rest

/-- Where the comments end that follow a body indented by `indent` and belong to it. -/
def commentStop (indent last : Nat) : List Token → Nat
  | [] => last
  | t :: rest =>
      match t.kind with
      | .lineEnd => commentStop indent last rest
      | .comment => if indent ≤ t.indent then commentStop indent t.stop rest else last
      | _ => last

/-- The first token that is neither a comment nor the end of a line. -/
def nextStatement? (ts : List Token) : Option Token :=
  ts.find? fun t => t.kind ≠ .comment && t.kind ≠ .lineEnd

/-- Where an indented body ends; `last` is where its last token so far ends. -/
def blockStop (indent last : Nat) : List Token → Nat
  | [] => last
  | t :: rest =>
      if t.kind = .lineEnd then
        match nextStatement? rest with
        | some next =>
            if indent ≤ next.indent then blockStop indent last rest
            else commentStop indent last rest
        | none => commentStop indent last rest
      else blockStop indent t.stop rest

/-- Where the body behind a colon ends. -/
def bodyStop (colon : Token) (rest : List Token) : Nat :=
  match rest.find? (·.kind ≠ .comment) with
  | some t =>
      if t.kind = .lineEnd then
        match nextStatement? rest with
        | some first => blockStop first.indent colon.stop (rest.dropWhile (· ≠ first))
        | none => colon.stop
      else inlineStop colon.stop rest
  | none => colon.stop

/-- The definitions among tokens; `before` is the token in front of them. -/
def definitionsFrom (before : Option Token) : List Token → List Construct
  | [] => []
  | t :: rest =>
      let more := definitionsFrom (some t) rest
      if t.isWord "def" then
        match rest with
        | name :: after =>
            match afterColon 0 after with
            | some (colon, body) =>
                let start := match before with
                  | some b => if b.isWord "async" then b.start else t.start
                  | none => t.start
                ⟨"function_definition", start, bodyStop colon body, name.start, name.stop⟩ :: more
            | none => more
        | [] => more
      else more

/-- The function definitions of a source, in order. -/
def definitions (source : List Char) : List Construct :=
  definitionsFrom none (tokens source)

end Workbench.Code.Python
