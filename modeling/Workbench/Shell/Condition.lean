/-
# Conditions

What `test` and double brackets ask: about texts, about numbers, and about files.

* `Condition.test` — the answer to a question of `test`.
-/

import Workbench.Shell.Machine

namespace Workbench.Shell.Condition

open Workbench.Text Workbench.Files

/-- The operators about one operand. -/
def unary : List String :=
  ["-n", "-z", "-e", "-f", "-d", "-s", "-r", "-w", "-x", "-L", "-h", "-t", "-v", "-p", "-S", "-b",
    "-c", "-a", "-o"]

/-- The operators about two operands. -/
def binary : List String :=
  ["=", "==", "!=", "<", ">", "-eq", "-ne", "-lt", "-le", "-gt", "-ge", "-nt", "-ot", "-ef", "=~"]

/-- The operators about numbers. -/
def numeric : List String := ["-eq", "-ne", "-lt", "-le", "-gt", "-ge"]

/-- The answer to a question about one operand. -/
def ask (m : Machine) (operator operand : String) : Bool :=
  let stat := m.tree.stat (pathOf operand)
  let found? : Option Entry := if operand = "" then none else stat.toOption
  match operator with
  | "-n" => operand != ""
  | "-z" => operand = ""
  | "-f" => (found?.map Entry.isFile).getD false
  | "-d" => (found?.map Entry.isDirectory).getD false
  | "-s" => match found? with
      | some (.file _ content) => content.octets != []
      | some _ => true
      | none => false
  | "-x" => match found? with
      | some (.file mode _) => mode &&& 0o111 != 0
      | some _ => true
      | none => false
  | "-L" => isLink operand
  | "-h" => isLink operand
  | "-v" => (m.value? operand).isSome
  | "-t" => false
  | "-p" => false
  | "-S" => false
  | "-b" => false
  | "-c" => false
  | "-o" => m.has operand
  | _ => found?.isSome
where
  /-- A path is one of a link. -/
  isLink (path : String) : Bool :=
    match m.tree.find false (pathOf path) with
    | .ok ⟨_, some (.link _)⟩ => true
    | _ => false

/-- The number that a text is. -/
def numberOf (text : String) : Except String Int :=
  match (text.trimAscii.toString).toInt? with
  | some n => .ok n
  | none =>
      match text.toList with
      | '+' :: rest =>
          match (String.ofList rest).toNat? with
          | some n => .ok n
          | none => .error (text ++ ": integer expression expected")
      | _ => .error (text ++ ": integer expression expected")

/-- The answer to a question about two operands. -/
def compare (a operator b : String) : Except String Bool := do
  if numeric.contains operator then
    let x ← numberOf a
    let y ← numberOf b
    return match operator with
      | "-eq" => x == y
      | "-ne" => x != y
      | "-lt" => x < y
      | "-le" => x ≤ y
      | "-gt" => y < x
      | _ => y ≤ x
  else
    return match operator with
      | "=" => a == b
      | "==" => a == b
      | "!=" => a != b
      | "<" => decide (a < b)
      | ">" => decide (b < a)
      | _ => false

/-- The answer to a question of `test`, or what is wrong with it. -/
def test (m : Machine) : Nat → List String → Except String Bool
  | 0, _ => .ok false
  | _, [] => .ok false
  | _, [a] => .ok (a != "")
  | fuel + 1, [a, b] => do
      if a = "!" then return !(← test m fuel [b])
      if unary.contains a then return ask m a b
      throw (a ++ ": unary operator expected")
  | fuel + 1, [a, b, c] => do
      if binary.contains b then return ← compare a b c
      if b = "-a" then return a != "" && c != ""
      if b = "-o" then return a != "" || c != ""
      if a = "!" then return !(← test m fuel [b, c])
      if a = "(" && c = ")" then return b != ""
      throw (b ++ ": binary operator expected")
  | fuel + 1, a :: rest => do
      match rest.idxOf? "-o", rest.idxOf? "-a" with
      | some i, _ => return (← test m fuel (a :: rest.take i)) || (← test m fuel (rest.drop (i + 1)))
      | none, some i =>
          return (← test m fuel (a :: rest.take i)) && (← test m fuel (rest.drop (i + 1)))
      | none, none =>
          if a = "!" && rest.length = 3 then return !(← test m fuel rest)
          if a = "(" && rest.getLast? = some ")" then return ← test m fuel rest.dropLast
          throw "too many arguments"

end Workbench.Shell.Condition
