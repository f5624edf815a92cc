/-
# Methods and constructors of Java

Reads the constructors and methods off a source that is valid Java. They stand in
the bodies of classes, interfaces, enumerations and records, wherever these are:
at the top, inside each other, inside code, after the constants of an
enumeration, or behind `new`. One runs from its first modifier or annotation to
the end of its body, or to the semicolon in place of a body.

* `Java.tokens` — the tokens of a source, comments left out.
* `Java.members` — its constructors and methods, in order.
-/

import Workbench.Code.Outline

namespace Workbench.Code.Java

/-- What follows a block comment of which the opening is read. -/
def afterComment : List Char → List Char
  | [] => []
  | '*' :: '/' :: rest => rest
  | _ :: rest => afterComment rest

/-- What follows a literal of which the opening quote is read. -/
def afterQuote (quote : Char) : List Char → List Char
  | [] => []
  | '\\' :: _ :: rest => afterQuote quote rest
  | c :: rest => if c = quote then rest else afterQuote quote rest

/-- What follows a text block of which the opening quotes are read. -/
def afterBlock : List Char → List Char
  | [] => []
  | '\\' :: _ :: rest => afterBlock rest
  | '"' :: '"' :: '"' :: rest => rest
  | _ :: rest => afterBlock rest

/-- The tokens of `s`, which starts at position `start`. -/
def scan : Nat → (start : Nat) → List Char → List Token
  | 0, _, _ => []
  | _, _, [] => []
  | fuel + 1, start, c :: rest =>
      let size := rest.length + 1
      let literal (after : List Char) : List Token :=
        let stop := start + (size - after.length)
        ⟨.literal, "", start, stop, 0⟩ :: scan fuel stop after
      match c, rest with
      | '/', '/' :: _ =>
          let body := rest.takeWhile (· ≠ '\n')
          scan fuel (start + 1 + body.length) (rest.drop body.length)
      | '/', '*' :: more =>
          let after := afterComment more
          scan fuel (start + (size - after.length)) after
      | '"', '"' :: '"' :: more => literal (afterBlock more)
      | '"', _ => literal (afterQuote '"' rest)
      | '\'', _ => literal (afterQuote '\'' rest)
      | '-', '>' :: more => ⟨.mark, "->", start, start + 2, 0⟩ :: scan fuel (start + 2) more
      | _, _ =>
          if isNameChar c then
            let (name, after) := takeName (c :: rest)
            ⟨.word, String.ofList name, start, start + name.length, 0⟩ ::
              scan fuel (start + name.length) after
          else if c.isWhitespace ∨ 128 ≤ c.toNat then scan fuel (start + 1) rest
          else ⟨.mark, String.singleton c, start, start + 1, 0⟩ :: scan fuel (start + 1) rest

/-- The tokens of a source. -/
def tokens (source : List Char) : List Token :=
  scan source.length 0 source

/-! ### Heads of members -/

/-- Words that may stand in front of a member. -/
def modifiers : List String :=
  ["public", "protected", "private", "abstract", "static", "final", "strictfp", "default",
    "synchronized", "native", "transient", "volatile", "sealed", "non"]

/-- A part of the head of a member: a token, or something in round brackets. -/
inductive Part where
  | token (t : Token)
  | group

/-- The part is this mark. -/
def Part.isMark (text : String) : Part → Bool
  | token t => t.isMark text
  | group => false

/-- What is left after angle brackets of which `depth` are open. -/
def afterAngles : Nat → List Part → List Part
  | 0, parts => parts
  | _, [] => []
  | depth + 1, p :: rest =>
      if p.isMark "<" then afterAngles (depth + 2) rest
      else if p.isMark ">" then afterAngles depth rest
      else afterAngles (depth + 1) rest

/-- What is left after the name and the arguments of an annotation. -/
def afterAnnotationName : List Part → List Part
  | .token t :: rest =>
      if t.isMark "." then
        match rest with
        | .token _ :: more => afterAnnotationName more
        | _ => rest
      else .token t :: rest
  | .group :: rest => rest
  | [] => []

/-- A head without modifiers, annotations and type parameters. -/
def stripHead : Nat → List Part → List Part
  | 0, parts => parts
  | fuel + 1, parts =>
      match parts with
      | .token t :: rest =>
          if t.kind = .word ∧ modifiers.contains t.text then stripHead fuel rest
          else if t.isMark "-" then stripHead fuel rest
          else if t.isMark "@" then stripHead fuel (afterAnnotationName (rest.drop 1))
          else if t.isMark "<" then stripHead fuel (afterAngles 1 rest)
          else parts
      | _ => parts

/-- The word in front of the parameters: the last one before the first group outside
angle brackets. -/
def nameOf? (last : Option Token) (depth : Nat) : List Part → Option Token
  | [] => none
  | .group :: rest => if depth = 0 then last else nameOf? last depth rest
  | .token t :: rest =>
      if t.isMark "<" then nameOf? last (depth + 1) rest
      else if t.isMark ">" then nameOf? last (depth - 1) rest
      else if depth = 0 ∧ t.kind = .word then nameOf? (some t) depth rest
      else nameOf? last depth rest

/-- What the head of a member declares: the kind of construct and its name. -/
def declared? (head : List Part) : Option (String × Token) :=
  match stripHead head.length head with
  | .token t :: .group :: _ => if t.kind = .word then some ("constructor_declaration", t) else none
  | parts => (nameOf? none 0 parts).map (("method_declaration", ·))

/-- A head with parameters. -/
def hasGroup (head : List Part) : Bool :=
  (declared? head).isSome

/-- Where a head starts. -/
def headStart? : List Part → Option Nat
  | .token t :: _ => some t.start
  | _ => none

/-- The construct that a head declares and that ends at `stop`. -/
def construct? (head : List Part) (stop : Nat) : Option Construct := do
  let (kind, name) ← declared? head
  let start ← headStart? head
  return ⟨kind, start, stop, name.start, name.stop⟩

/-! ### Bodies -/

/-- What the members of a body are. -/
inductive BodyKind where
  | ordinary
  | enumeration
  | annotationType
  deriving DecidableEq

/-- The body that a type declaration opens at the start of the tokens: its kind. A
record is one only when its name and parameters follow. -/
def declares? (last : Option Token) : List Token → Option BodyKind
  | t :: rest =>
      if t.isWord "class" then
        match last with
        | some l => if l.isMark "." then none else some .ordinary
        | none => some .ordinary
      else if t.isWord "interface" then
        match last with
        | some l => if l.isMark "@" then some .annotationType else some .ordinary
        | none => some .ordinary
      else if t.isWord "enum" then some .enumeration
      else if t.isWord "record" then
        match rest with
        | name :: open_ :: _ =>
            if name.kind = .word ∧ (open_.isMark "(" ∨ open_.isMark "<") then some .ordinary else none
        | _ => none
      else none
  | [] => none

/-- What is found in a stretch of tokens, the token that ends it, and what follows. -/
structure Found where
  constructs : List Construct
  closing : Option Token
  rest : List Token

/-- Skips the name of a created type: words, dots, annotations, type arguments. -/
def afterCreated (angle : Nat) : List Token → List Token
  | [] => []
  | t :: rest =>
      if t.isMark "<" then afterCreated (angle + 1) rest
      else if t.isMark ">" then afterCreated (angle - 1) rest
      else if 0 < angle then afterCreated angle rest
      else if t.kind = .word ∨ t.isMark "." ∨ t.isMark "@" then afterCreated angle rest
      else t :: rest

mutual

/-- The constructs in code up to the bracket that closes it, or up to a semicolon
where `line` says that one ends it. -/
def code : Nat → (line : Bool) → (last : Option Token) → List Token → Found
  | 0, _, _, rest => ⟨[], none, rest⟩
  | _, _, _, [] => ⟨[], none, []⟩
  | fuel + 1, line, last, t :: rest =>
      if t.closes then ⟨[], some t, rest⟩
      else if line && t.isMark ";" then ⟨[], some t, rest⟩
      else if t.opens then
        let inner := code fuel false (some t) rest
        let more := code fuel line inner.closing inner.rest
        { more with constructs := inner.constructs ++ more.constructs }
      else if t.isWord "new" then
        match afterCreated 0 rest with
        | u :: after =>
            if u.isMark "(" then
              let arguments := code fuel false (some u) after
              match arguments.rest with
              | b :: body =>
                  if b.isMark "\x7b" then
                    let inner := members fuel .ordinary body
                    let more := code fuel line inner.closing inner.rest
                    { more with
                      constructs := arguments.constructs ++ inner.constructs ++ more.constructs }
                  else
                    let more := code fuel line arguments.closing arguments.rest
                    { more with constructs := arguments.constructs ++ more.constructs }
              | [] => arguments
            else code fuel line (some t) (u :: after)
        | [] => ⟨[], none, []⟩
      else
        match declares? last (t :: rest) with
        | some kind =>
            let inner := typeBody fuel kind rest
            let more := code fuel line inner.closing inner.rest
            { more with constructs := inner.constructs ++ more.constructs }
        | none => code fuel line (some t) rest

/-- The constructs of a type declaration from its name to the end of its body. -/
def typeBody : Nat → BodyKind → List Token → Found
  | 0, _, rest => ⟨[], none, rest⟩
  | _, _, [] => ⟨[], none, []⟩
  | fuel + 1, kind, t :: rest =>
      if t.isMark "\x7b" then
        if kind = .enumeration then constants fuel rest else members fuel kind rest
      else if t.isMark "(" then
        let inner := code fuel false (some t) rest
        let more := typeBody fuel kind inner.rest
        { more with constructs := inner.constructs ++ more.constructs }
      else typeBody fuel kind rest

/-- The constructs of an enumeration, from its constants to the end of its body. -/
def constants : Nat → List Token → Found
  | 0, rest => ⟨[], none, rest⟩
  | _, [] => ⟨[], none, []⟩
  | fuel + 1, t :: rest =>
      if t.isMark ";" then members fuel .ordinary rest
      else if t.isMark "\x7d" then ⟨[], some t, rest⟩
      else if t.isMark "\x7b" then
        let inner := members fuel .ordinary rest
        let more := constants fuel inner.rest
        { more with constructs := inner.constructs ++ more.constructs }
      else if t.opens then
        let inner := code fuel false (some t) rest
        let more := constants fuel inner.rest
        { more with constructs := inner.constructs ++ more.constructs }
      else constants fuel rest

/-- The constructs of a body up to the brace that closes it. -/
def members : Nat → BodyKind → List Token → Found
  | 0, _, rest => ⟨[], none, rest⟩
  | _, _, [] => ⟨[], none, []⟩
  | fuel + 1, kind, t :: rest =>
      if t.isMark "\x7d" then ⟨[], some t, rest⟩
      else
        let first := member fuel kind [] (t :: rest)
        let more := members fuel kind first.rest
        { more with constructs := first.constructs ++ more.constructs }

/-- The constructs of one member; `head` holds the parts of it that are read. -/
def member : Nat → BodyKind → (head : List Part) → List Token → Found
  | 0, _, _, rest => ⟨[], none, rest.drop 1⟩
  | _, _, _, [] => ⟨[], none, []⟩
  | fuel + 1, kind, head, t :: rest =>
      let last : Option Token := match head.getLast? with
        | some (.token l) => some l
        | _ => none
      if t.isMark ";" then
        let found := if kind = .annotationType then none else construct? head t.stop
        ⟨found.toList, some t, rest⟩
      else if t.isMark "\x7b" then
        let inner := code fuel false (some t) rest
        let stop := match inner.closing with
          | some c => c.stop
          | none => t.stop
        let found := if kind = .annotationType then none else construct? head stop
        { inner with constructs := found.toList ++ inner.constructs }
      else if t.isMark "=" || (t.isWord "default" && hasGroup head) then
        code fuel true (some t) rest
      else if t.isMark "(" then
        let inner := code fuel false (some t) rest
        let more := member fuel kind (head ++ [.group]) inner.rest
        { more with constructs := more.constructs ++ inner.constructs }
      else if t.closes then ⟨[], some t, rest⟩
      else
        match declares? last (t :: rest) with
        | some body => typeBody fuel body rest
        | none => member fuel kind (head ++ [.token t]) rest

end

/-- The constructors and methods of a source, in order. -/
def definitions (source : List Char) : List Construct :=
  let ts := tokens source
  (members (2 * ts.length + 2) .ordinary ts).constructs

end Workbench.Code.Java
