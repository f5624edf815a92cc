/-
# Functions of Rust

Reads the functions off a source that is valid Rust. A function runs from its
visibility or first modifier to the end of its body; a signature without a body
is no function. What macros and attributes are given is not looked into.

* `Rust.tokens` — the tokens of a source, comments left out.
* `Rust.functions` — its functions, in order.
-/

import Workbench.Code.Outline

namespace Workbench.Code.Rust

/-- What follows a block comment of which `depth` openings are read. -/
def afterComment : Nat → Nat → List Char → List Char
  | 0, _, s => s
  | _, _, [] => []
  | fuel + 1, depth, '*' :: '/' :: rest =>
      if depth ≤ 1 then rest else afterComment fuel (depth - 1) rest
  | fuel + 1, depth, '/' :: '*' :: rest => afterComment fuel (depth + 1) rest
  | fuel + 1, depth, _ :: rest => afterComment fuel depth rest

/-- What follows a literal in quotes of which the opening quote is read. -/
def afterQuote (quote : Char) : List Char → List Char
  | [] => []
  | '\\' :: _ :: rest => afterQuote quote rest
  | c :: rest => if c = quote then rest else afterQuote quote rest

/-- What follows a raw literal that ends with a quote and `hashes` hash signs. -/
def afterRaw (hashes : Nat) : List Char → List Char
  | [] => []
  | c :: rest =>
      if c = '"' ∧ (rest.take hashes).length = hashes ∧ (rest.take hashes).all (· == '#') then
        rest.drop hashes
      else afterRaw hashes rest

/-- What follows a raw literal, given what comes after its `r`; none if there is no
such literal. -/
def rawLiteral? (s : List Char) : Option (List Char) :=
  let hashes := (s.takeWhile (· == '#')).length
  match s.drop hashes with
  | '"' :: rest => some (afterRaw hashes rest)
  | _ => none

/-- Marks of two characters that count as one. -/
def pairs : List (Char × Char) :=
  [('-', '>'), ('=', '>'), ('!', '='), ('<', '='), ('>', '='), (':', ':')]

/-- The tokens of `s`, which starts at position `start`. -/
def scan : Nat → (start : Nat) → List Char → List Token
  | 0, _, _ => []
  | _, _, [] => []
  | fuel + 1, start, c :: rest =>
      let size := rest.length + 1
      let literal (after : List Char) : List Token :=
        let stop := start + (size - after.length)
        ⟨.literal, "", start, stop, 0⟩ :: scan fuel stop after
      match c, rest with
      | '/', '/' :: _ =>
          let body := rest.takeWhile (· ≠ '\n')
          scan fuel (start + 1 + body.length) (rest.drop body.length)
      | '/', '*' :: more =>
          let after := afterComment size 1 more
          scan fuel (start + (size - after.length)) after
      | '"', _ => literal (afterQuote '"' rest)
      | '\'', '\\' :: _ => literal (afterQuote '\'' rest)
      | '\'', _ :: '\'' :: more => literal more
      | '\'', _ => scan fuel (start + 1) rest
      | _, _ =>
          if isNameChar c then
            let (name, after) := takeName (c :: rest)
            let plain : List Token :=
              ⟨.word, String.ofList name, start, start + name.length, 0⟩ ::
                scan fuel (start + name.length) after
            match String.ofList name, after with
            | "b", '"' :: more => literal (afterQuote '"' more)
            | "c", '"' :: more => literal (afterQuote '"' more)
            | "b", '\'' :: '\\' :: more => literal (afterQuote '\'' ('\\' :: more))
            | "b", '\'' :: _ :: '\'' :: more => literal more
            | word, '"' :: _ =>
                if word = "r" ∨ word = "br" ∨ word = "cr" then
                  match rawLiteral? after with
                  | some behind => literal behind
                  | none => plain
                else plain
            | word, '#' :: behindHash =>
                if word = "r" ∨ word = "br" ∨ word = "cr" then
                  match rawLiteral? after with
                  | some behind => literal behind
                  | none =>
                      let (raw, behind) := takeName behindHash
                      if word = "r" ∧ raw ≠ [] then
                        let stop := start + 2 + raw.length
                        ⟨.word, "r#" ++ String.ofList raw, start, stop, 0⟩ :: scan fuel stop behind
                      else plain
                else plain
            | _, _ => plain
          else if c.isWhitespace ∨ 128 ≤ c.toNat then scan fuel (start + 1) rest
          else
            match rest with
            | d :: more =>
                if pairs.contains (c, d) then
                  ⟨.mark, String.ofList [c, d], start, start + 2, 0⟩ :: scan fuel (start + 2) more
                else ⟨.mark, String.singleton c, start, start + 1, 0⟩ :: scan fuel (start + 1) rest
            | [] => [⟨.mark, String.singleton c, start, start + 1, 0⟩]

/-- The tokens of a source. -/
def tokens (source : List Char) : List Token :=
  scan source.length 0 source

/-- The tokens after the brace that opens a body; none when the signature ends
without one. `depth` counts round and square brackets, `angle` the angle ones. -/
def afterSignature (depth angle : Nat) : List Token → Option (List Token)
  | [] => none
  | t :: rest =>
      if t.isMark "\x7b" then
        if depth = 0 ∧ angle = 0 then some rest else afterSignature (depth + 1) angle rest
      else if t.isMark ";" && depth == 0 then none
      else if t.opens then afterSignature (depth + 1) angle rest
      else if t.closes then afterSignature (depth - 1) angle rest
      else if t.isMark "<" then afterSignature depth (angle + 1) rest
      else if t.isMark ">" then afterSignature depth (angle - 1) rest
      else afterSignature depth angle rest

/-- Words that may stand between the visibility of a function and `fn`. -/
def modifiers : List String :=
  ["async", "const", "unsafe", "default", "extern", "pub", "crate", "safe", "gen"]

/-- Where a function starts, given where its `fn` does and the tokens before that,
last first. -/
def functionStart (start : Nat) : List Token → Nat
  | [] => start
  | t :: before =>
      match t.kind with
      | .word => if modifiers.contains t.text then functionStart t.start before else start
      | .literal =>
          match before with
          | e :: more => if e.isWord "extern" then functionStart e.start more else start
          | [] => start
      | _ =>
          if t.isMark ")" then
            match before.dropWhile (fun u => !u.isMark "(") with
            | _ :: p :: _ => if p.isWord "pub" then p.start else start
            | _ => start
          else start

/-- Words that are no names of macros. -/
def keywords : List String :=
  ["if", "match", "while", "return", "in", "else", "break", "let", "as", "mut", "move", "loop",
    "for", "unsafe", "async", "where", "yield", "box", "ref"]

/-- What is left after the argument of a macro or an attribute, if a bracket opens it. -/
def argument? : List Token → Option (List Token)
  | t :: rest => if t.opens then (afterClosing 1 rest).map (·.2) else none
  | [] => none

theorem length_argument?_lt {ts rest : List Token} (h : argument? ts = some rest) :
    rest.length < ts.length := by
  cases ts with
  | nil => simp [argument?] at h
  | cons t ts =>
      simp only [argument?] at h
      split at h
      · obtain ⟨⟨u, us⟩, hu, rfl⟩ := Option.map_eq_some_iff.mp h
        have := length_afterClosing_lt hu
        simp only [List.length_cons]
        omega
      · simp at h

/-- What is left after a macro call or an attribute at the start of the tokens. -/
def skipped? : List Token → Option (List Token)
  | t :: u :: rest =>
      if t.isMark "#" && u.isMark "!" then argument? rest
      else if t.isMark "#" then argument? (u :: rest)
      else if t.kind == .word && u.isMark "!" && !keywords.contains t.text then
        match rest with
        | v :: more => if v.kind == .word then argument? more else argument? rest
        | [] => none
      else none
  | _ => none

theorem length_skipped?_lt {ts rest : List Token} (h : skipped? ts = some rest) :
    rest.length < ts.length := by
  unfold skipped? at h
  split at h
  · rename_i t u more
    split at h
    · have := length_argument?_lt h; simp only [List.length_cons]; omega
    · split at h
      · have := length_argument?_lt h; simp only [List.length_cons] at this ⊢; omega
      · split at h
        · cases more with
          | nil => simp at h
          | cons v more =>
              simp only at h
              split at h
              · have := length_argument?_lt h; simp only [List.length_cons]; omega
              · have := length_argument?_lt h; simp only [List.length_cons] at this ⊢; omega
        · simp at h
  · simp at h

/-- The function whose `fn` is read. -/
def function? (word : Token) (before rest : List Token) : Option Construct :=
  match rest with
  | name :: after =>
      if name.kind = .word then do
        let body ← afterSignature 0 0 after
        let (closing, _) ← afterClosing 1 body
        return ⟨"function_item", functionStart word.start before, closing.stop, name.start, name.stop⟩
      else none
  | [] => none

/-- The functions among tokens; `before` holds the tokens in front of them, last first. -/
def functionsFrom (before : List Token) (ts : List Token) : List Construct :=
  match _hs : skipped? ts with
  | some rest => functionsFrom [] rest
  | none =>
      match ts with
      | [] => []
      | t :: rest =>
          let more := functionsFrom (t :: before) rest
          if t.isWord "fn" then (function? t before rest).toList ++ more else more
termination_by ts.length
decreasing_by
  · exact length_skipped?_lt _hs
  · simp

/-- The functions of a source, in order. -/
def functions (source : List Char) : List Construct :=
  functionsFrom [] (tokens source)

end Workbench.Code.Rust
