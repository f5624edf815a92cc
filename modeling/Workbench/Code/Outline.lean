/-
# Outlines of sources

What a grammar tells about a source: its constructs, each with its kind, its
stretch of the text and the stretch of its name, and nested as they are in the
text. Positions count characters.

* `Construct` — one construct.
* `Node`, `Outline` — constructs with those inside them, in order.
* `Outline.nest` — the outline of constructs given in the order of their starts.
* `Outline.ofKind` — the constructs of a kind at any depth, outer before inner.
-/

namespace Workbench.Code

/-- A construct of a source: its kind, and where it and its name stand. -/
structure Construct where
  kind : String
  start : Nat
  stop : Nat
  nameStart : Nat
  nameStop : Nat
  deriving Repr, DecidableEq

/-- A construct and the ones inside it. -/
inductive Node where
  | mk (construct : Construct) (children : List Node)
  deriving Repr

/-- The outermost constructs of a source, in order. -/
abbrev Outline := List Node

namespace Outline

/-- Puts constructs that start inside another one below it. -/
def nest : List Construct → Outline
  | [] => []
  | c :: rest =>
      .mk c (nest (rest.takeWhile (·.start < c.stop))) :: nest (rest.dropWhile (·.start < c.stop))
termination_by cs => cs.length
decreasing_by
  · have := (List.takeWhile_prefix (fun x : Construct => decide (x.start < c.stop)) (l := rest)).length_le
    simp only [List.length_cons]
    omega
  · have := (List.dropWhile_suffix (fun x : Construct => decide (x.start < c.stop)) (l := rest)).length_le
    simp only [List.length_cons]
    omega

mutual

/-- The constructs of a kind in a node, outer before inner. -/
def Node.ofKind (kind : String) : Node → List Construct
  | .mk c children =>
      if c.kind = kind then c :: ofKind kind children else ofKind kind children

/-- The constructs of a kind in an outline, outer before inner. -/
def ofKind (kind : String) : List Node → List Construct
  | [] => []
  | node :: rest => Node.ofKind kind node ++ ofKind kind rest

end

end Outline

/-- The stretch of a text between two positions. -/
def slice (text : List Char) (start stop : Nat) : List Char :=
  (text.drop start).take (stop - start)

/-- What a token is: a name, keyword or numeral; a mark; a literal; a comment; or
the end of a line. -/
inductive TokenKind where
  | word
  | mark
  | literal
  | comment
  | lineEnd
  deriving DecidableEq, Repr

/-- A token: what it is, what it says, where it stands, and how far what precedes
it on its line is indented. -/
structure Token where
  kind : TokenKind
  text : String
  start : Nat
  stop : Nat
  indent : Nat
  deriving Repr, DecidableEq

namespace Token

/-- The token is this word. -/
def isWord (t : Token) (text : String) : Bool :=
  t.kind == .word && t.text == text

/-- The token is this mark. -/
def isMark (t : Token) (text : String) : Bool :=
  t.kind == .mark && t.text == text

/-- The token opens a bracket. -/
def opens (t : Token) : Bool :=
  t.isMark "(" || t.isMark "[" || t.isMark "\x7b"

/-- The token closes a bracket. -/
def closes (t : Token) : Bool :=
  t.isMark ")" || t.isMark "]" || t.isMark "\x7d"

end Token

/-- The tokens after the bracket that closes `depth` open ones, and the closing token. -/
def afterClosing : Nat → List Token → Option (Token × List Token)
  | _, [] => none
  | depth, t :: rest =>
      if t.opens then afterClosing (depth + 1) rest
      else if t.closes then
        match depth with
        | 0 => some (t, rest)
        | 1 => some (t, rest)
        | d + 2 => afterClosing (d + 1) rest
      else afterClosing depth rest

/-- What follows the closing bracket is shorter. -/
theorem length_afterClosing_lt {depth : Nat} {ts rest : List Token} {t : Token}
    (h : afterClosing depth ts = some (t, rest)) : rest.length < ts.length := by
  induction ts generalizing depth with
  | nil => simp [afterClosing] at h
  | cons u us ih =>
      unfold afterClosing at h
      split at h
      · have := ih h; simp only [List.length_cons]; omega
      · split at h
        · split at h
          · simp only [Option.some.injEq, Prod.mk.injEq] at h
            simp [h.2]
          · simp only [Option.some.injEq, Prod.mk.injEq] at h
            simp [h.2]
          · have := ih h; simp only [List.length_cons]; omega
        · have := ih h; simp only [List.length_cons]; omega

/-- A character of a name or numeral: of ASCII a letter, a digit, an underscore or
a dollar sign; of the others, every one that is not blank. -/
def isNameChar (c : Char) : Bool :=
  c.isAlphanum || c == '_' || c == '$' || (128 ≤ c.toNat && !(c.toNat == 0xA0) &&
    !(c.toNat == 0xFEFF) && !(c.toNat == 0x2060) && !(c.toNat == 0x200B))

/-- The longest beginning of a text that is part of a name, and the rest. -/
def takeName (s : List Char) : List Char × List Char :=
  (s.takeWhile isNameChar, s.dropWhile isNameChar)

end Workbench.Code
