/-
# JSON values

A JSON value as the tools exchange it. A number is a whole number that fits a
64-bit word, signed or not, or else a double. The fields of an object are kept in
ascending order of their names, each name once; `Value.insert` keeps them so,
and the last field of a name wins.
-/

import Workbench.Decimal.Shortest

namespace Workbench.Json

/-- A number: a whole one that a 64-bit word holds, or a double. -/
inductive Number where
  | whole (n : Int)
  | double (x : Float)

/-- A JSON value. -/
inductive Value where
  | null
  | bool (b : Bool)
  | number (n : Number)
  | string (s : String)
  | array (items : List Value)
  | object (fields : List (String × Value))

namespace Value

/-- The fields with one more, in its place in the order; it replaces a field of its name. -/
def insert (name : String) (value : Value) : List (String × Value) → List (String × Value)
  | [] => [(name, value)]
  | (other, old) :: rest =>
      if name < other then (name, value) :: (other, old) :: rest
      else if name = other then (name, value) :: rest
      else (other, old) :: insert name value rest

/-- The object with these fields; of two with one name the later one counts. -/
def ofFields (fields : List (String × Value)) : Value :=
  object (fields.foldl (fun known (name, value) => insert name value known) [])

/-- The field of a name, of an object. -/
def field? (name : String) : Value → Option Value
  | object fields => (fields.find? (·.1 == name)).map (·.2)
  | _ => none

/-- The items, of an array. -/
def items? : Value → Option (List Value)
  | array items => some items
  | _ => none

/-- The text, of a string. -/
def string? : Value → Option String
  | string s => some s
  | _ => none

/-- A whole number that is not negative. -/
def natural? : Value → Option Nat
  | number (.whole n) => if 0 ≤ n then some n.toNat else none
  | _ => none

/-- A number as a double. -/
def double? : Value → Option Float
  | number (.whole n) =>
      some (if 0 ≤ n then n.toNat.toUInt64.toFloat else -(n.natAbs.toUInt64.toFloat))
  | number (.double x) => some x
  | _ => none

/-- The number `n`. -/
def ofNat (n : Nat) : Value := number (.whole n)

/-- The text, or null. -/
def ofString? : Option String → Value
  | some s => string s
  | none => null

end Value

end Workbench.Json
