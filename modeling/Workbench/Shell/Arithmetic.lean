/-
# Arithmetic

Expressions over whole numbers of 64 bits, with the operators of C. The value of a name is
the value of the expression that the variable holds.

* `Arithmetic.evaluate` — the value of an expression, and the variables then.
-/

import Workbench.Shell.Machine

namespace Workbench.Shell.Arithmetic

/-- A piece of an expression. -/
inductive Token where
  | number (n : Int)
  | name (text : String)
  | sign (text : String)
  deriving DecidableEq, Repr

/-- The operators, longer ones first. -/
def signs : List String :=
  ["<<=", ">>=", "**", "++", "--", "<<", ">>", "<=", ">=", "==", "!=", "&&", "||", "+=", "-=",
    "*=", "/=", "%=", "&=", "|=", "^=", "+", "-", "*", "/", "%", "<", ">", "=", "!", "~", "&",
    "|", "^", "?", ":", "(", ")", ","]

/-- A number within 64 bits. -/
def wrapped (n : Int) : Int :=
  Int.bmod n (Nat.pow 2 64)

/-- The value of a letter or digit as a digit. -/
def digitOf (c : Char) : Nat :=
  if c.isDigit then c.toNat - '0'.toNat else c.toLower.toNat - 'a'.toNat + 10

/-- The number that digits are to a base, if they are digits to it. -/
def toBase (base : Nat) (digits : List Char) : Option Int :=
  if digits.all fun c => digitOf c < base then
    some (wrapped (digits.foldl (fun n c => base * n + digitOf c) 0 : Nat))
  else none

/-- The number that letters and digits are. -/
def numberOf (s : List Char) : Option Int :=
  match s with
  | [_, '#'] => none
  | b :: '#' :: rest => toBase (digitOf b) rest
  | b :: c :: '#' :: rest => toBase (10 * digitOf b + digitOf c) rest
  | '0' :: 'x' :: rest => toBase 16 rest
  | '0' :: 'X' :: rest => toBase 16 rest
  | '0' :: rest => toBase 8 rest
  | _ => toBase 10 s

/-- The pieces of an expression. -/
def tokens : Nat → List Char → Except String (List Token)
  | 0, _ => .ok []
  | _, [] => .ok []
  | fuel + 1, c :: s => do
      let all := c :: s
      if c.isWhitespace then tokens fuel s
      else if c.isDigit then
        let digits := all.takeWhile fun c => c.isAlphanum || c == '#'
        match numberOf digits with
        | some n => return .number n :: (← tokens fuel (all.drop digits.length))
        | none =>
            throw ("value too great for base (error token is \"" ++ String.ofList digits ++ "\")")
      else if c.isAlpha || c == '_' then
        let letters := all.takeWhile fun c => c.isAlphanum || c == '_'
        return .name (String.ofList letters) :: (← tokens fuel (all.drop letters.length))
      else match signs.find? fun sign => sign.toList.isPrefixOf all with
        | some sign => return .sign sign :: (← tokens fuel (all.drop sign.length))
        | none =>
            throw ("syntax error: invalid arithmetic operator (error token is \"" ++
              String.ofList all ++ "\")")

/-- How a piece is written. -/
def Token.text : Token → String
  | number n => toString n
  | name text => text
  | sign text => text

/-- Evaluates with pieces to come and variables. -/
abbrev Calculation := StateT (List Token × Machine) (Except String)

/-- The piece that comes. -/
def peek : Calculation (Option Token) := do
  return (← get).1.head?

/-- Passes a piece. -/
def pass : Calculation Unit :=
  modify fun (ts, m) => (ts.drop 1, m)

/-- Stops because there is no operand. -/
def noOperand {α : Type} : Calculation α := do
  let text := String.join ((← get).1.map Token.text)
  throw ("syntax error: operand expected (error token is \"" ++ text ++ "\")")

/-- The operators between two values, from the loosest on. -/
def levels : List (List String) := [
  ["||"], ["&&"], ["|"], ["^"], ["&"], ["==", "!="], ["<=", ">=", "<", ">"], ["<<", ">>"],
  ["+", "-"], ["*", "/", "%"]]

/-- One for what holds, and zero for what does not. -/
def ofBool (b : Bool) : Int :=
  if b then 1 else 0

/-- The value of an operator. -/
def apply (sign : String) (a b : Int) : Except String Int :=
  let bits (f : Nat → Nat → Nat) : Int :=
    wrapped (f (a % Nat.pow 2 64).toNat (b % Nat.pow 2 64).toNat : Nat)
  match sign with
  | "||" => .ok (ofBool (a != 0 || b != 0))
  | "&&" => .ok (ofBool (a != 0 && b != 0))
  | "|" => .ok (bits (· ||| ·))
  | "^" => .ok (bits (· ^^^ ·))
  | "&" => .ok (bits (· &&& ·))
  | "==" => .ok (ofBool (a == b))
  | "!=" => .ok (ofBool (a != b))
  | "<=" => .ok (ofBool (a ≤ b))
  | ">=" => .ok (ofBool (b ≤ a))
  | "<" => .ok (ofBool (a < b))
  | ">" => .ok (ofBool (b < a))
  | "<<" => .ok (wrapped (a * Nat.pow 2 (b % 64).toNat))
  | ">>" => .ok (a / Nat.pow 2 (b % 64).toNat)
  | "+" => .ok (wrapped (a + b))
  | "-" => .ok (wrapped (a - b))
  | "*" => .ok (wrapped (a * b))
  | "**" => if b < 0 then .error "exponent less than 0" else .ok (wrapped (Int.pow a b.toNat))
  | _ =>
      if b = 0 then .error ("division by 0 (error token is \"" ++ toString b ++ "\")")
      else .ok (wrapped (if sign = "/" then Int.tdiv a b else Int.tmod a b))

/-- Gives a variable a value. -/
def assign (name : String) (n : Int) : Calculation Int := do
  modify fun (ts, m) => (ts, m.set name (toString n))
  return n

/-- Applies an operator to values. -/
def applied (sign : String) (a b : Int) : Calculation Int :=
  match apply sign a b with
  | .ok n => return n
  | .error e => throw e

mutual

/-- The value of a variable. -/
def valueOf : Nat → String → Calculation Int
  | 0, _ => return 0
  | fuel + 1, name => do
      let (ts, m) ← get
      let text := (m.value? name).getD ""
      match tokens (text.length + 1) text.toList with
      | .error e => throw e
      | .ok [] => return 0
      | .ok inner => do
          set (inner, m)
          let n ← assignment fuel
          modify fun (_, m) => (ts, m)
          return n

/-- The value of an operand. -/
def operand : Nat → Calculation Int
  | 0 => noOperand
  | fuel + 1 => do
      match ← peek with
      | some (.number n) => do pass; return n
      | some (.name text) => do
          pass
          let n ← valueOf fuel text
          match ← peek with
          | some (.sign "++") => do pass; let _ ← assign text (wrapped (n + 1)); return n
          | some (.sign "--") => do pass; let _ ← assign text (wrapped (n - 1)); return n
          | _ => return n
      | some (.sign "(") => do
          pass
          let n ← sequence fuel
          match ← peek with
          | some (.sign ")") => do pass; return n
          | _ => throw "missing \x60)'"
      | some (.sign "-") => do pass; return wrapped (-(← operand fuel))
      | some (.sign "+") => do pass; operand fuel
      | some (.sign "!") => do pass; return ofBool ((← operand fuel) == 0)
      | some (.sign "~") => do pass; return -(← operand fuel) - 1
      | some (.sign "++") => do step fuel 1
      | some (.sign "--") => do step fuel (-1)
      | _ => noOperand

/-- A step of a variable, before its value is taken. -/
def step : Nat → Int → Calculation Int
  | 0, _ => noOperand
  | fuel + 1, by_ => do
      pass
      match ← peek with
      | some (.name text) => do
          pass
          assign text (wrapped ((← valueOf fuel text) + by_))
      | _ => noOperand

/-- The value of a power. -/
def power : Nat → Calculation Int
  | 0 => noOperand
  | fuel + 1 => do
      let a ← operand fuel
      match ← peek with
      | some (.sign "**") => do pass; applied "**" a (← power fuel)
      | _ => return a

/-- The value of operators of a level and tighter ones. -/
def binary : Nat → List (List String) → Calculation Int
  | 0, _ => noOperand
  | fuel + 1, [] => power fuel
  | fuel + 1, level :: tighter => do
      more fuel level tighter (← binary fuel tighter)

/-- The value of operators of a level after a first value. -/
def more : Nat → List String → List (List String) → Int → Calculation Int
  | 0, _, _, a => return a
  | fuel + 1, level, tighter, a => do
      match ← peek with
      | some (.sign sign) => do
          if level.contains sign then
            pass
            more fuel level tighter (← applied sign a (← binary fuel tighter))
          else return a
      | _ => return a

/-- The value of a choice. -/
def choice : Nat → Calculation Int
  | 0 => noOperand
  | fuel + 1 => do
      let test ← binary fuel levels
      match ← peek with
      | some (.sign "?") => do
          pass
          let yes ← assignment fuel
          match ← peek with
          | some (.sign ":") => do
              pass
              let no ← choice fuel
              return if test = 0 then no else yes
          | _ => throw "\x60:' expected for conditional expression"
      | _ => return test

/-- The value of an assignment. -/
def assignment : Nat → Calculation Int
  | 0 => noOperand
  | fuel + 1 => do
      match (← get).1 with
      | .name text :: .sign sign :: rest => do
          if sign = "=" then
            modify fun (_, m) => (rest, m)
            assign text (← assignment fuel)
          else if ["<<=", ">>=", "+=", "-=", "*=", "/=", "%=", "&=", "|=", "^="].contains sign then
            modify fun (_, m) => (rest, m)
            let n ← assignment fuel
            assign text (← applied (String.ofList sign.toList.dropLast) (← valueOf fuel text) n)
          else choice fuel
      | _ => choice fuel

/-- The value of the last of several expressions. -/
def sequence : Nat → Calculation Int
  | 0 => noOperand
  | fuel + 1 => do
      let n ← assignment fuel
      match ← peek with
      | some (.sign ",") => do pass; sequence fuel
      | _ => return n

end

/-- The value of an expression, and the shell then. -/
def evaluate (m : Machine) (text : String) : Except String (Int × Machine) := do
  let complaint (e : String) : String := text.trimAscii.toString ++ ": " ++ e
  match tokens (text.length + 1) text.toList with
  | .error e => throw (complaint e)
  | .ok [] => return (0, m)
  | .ok ts =>
      match (sequence (16 * ts.length + 64)).run (ts, m) with
      | .error e => throw (complaint e)
      | .ok (n, [], m) => return (n, m)
      | .ok (_, rest, _) =>
          throw (complaint ("syntax error in expression (error token is \"" ++
            String.join (rest.map Token.text) ++ "\")"))

end Workbench.Shell.Arithmetic
