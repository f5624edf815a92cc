/-
# Decoding JSON

What a value must look like to be read as a piece of data, and how a message says
that it does not. A record is read from an object, by the names of its fields, or
from an array, by their order. A field that is absent is a fault, unless it may
be; fields of other names are passed over.

* `Fault` — why a value does not fit; `Fault.message` is its wording.
* `Shape` — a record: its name and fields; `Shape.decode` reads it.
-/

import Workbench.Json.Writer
import Workbench.Text.Quoted

namespace Workbench.Json

open Workbench.Text

/-- Why a value does not fit what is read from it. -/
inductive Fault where
  | wrongType (found : Value) (expected : String)
  | wrongValue (found : Int) (expected : String)
  | missingField (name : String)
  | duplicateField (name : String)
  | wrongLength (length : Nat) (expected : String)

/-- How a message names a value of the wrong type. -/
def describe : Value → String
  | .null => "null"
  | .bool b => "boolean \x60" ++ toString b ++ "\x60"
  | .number (.whole n) => "integer \x60" ++ toString n ++ "\x60"
  | .number (.double x) => "floating point \x60" ++ renderDouble x ++ "\x60"
  | .string s => "string " ++ quoted s
  | .array _ => "sequence"
  | .object _ => "map"

/-- The wording of a fault. -/
def Fault.message : Fault → String
  | wrongType found expected => "invalid type: " ++ describe found ++ ", expected " ++ expected
  | wrongValue found expected =>
      "invalid value: integer \x60" ++ toString found ++ "\x60, expected " ++ expected
  | missingField name => "missing field \x60" ++ name ++ "\x60"
  | duplicateField name => "duplicate field \x60" ++ name ++ "\x60"
  | wrongLength length expected =>
      "invalid length " ++ toString length ++ ", expected " ++ expected

namespace Decode

/-- A text. -/
def text : Value → Except Fault String
  | .string s => .ok s
  | v => .error (.wrongType v "a string")

/-- A truth value. -/
def bool : Value → Except Fault Bool
  | .bool b => .ok b
  | v => .error (.wrongType v "a boolean")

/-- An unsigned word; `expected` is what a message calls it. -/
def word (expected : String) : Value → Except Fault Nat
  | .number (.whole n) =>
      if 0 ≤ n then .ok n.toNat else .error (.wrongValue n expected)
  | v => .error (.wrongType v expected)

/-- A size. -/
def size : Value → Except Fault Nat :=
  word "usize"

/-- A signed word. -/
def signed : Value → Except Fault Int
  | .number (.whole n) =>
      if n < Nat.pow 2 63 then .ok n else .error (.wrongValue n "i64")
  | v => .error (.wrongType v "i64")

/-- Null, or what `read` reads. -/
def optional {α : Type} (read : Value → Except Fault α) : Value → Except Fault (Option α)
  | .null => .ok none
  | v => (read v).map some

/-- A list of what `read` reads. -/
def list {α : Type} (read : Value → Except Fault α) : Value → Except Fault (List α)
  | .array items => items.mapM read
  | v => .error (.wrongType v "a sequence")

end Decode

/-- A field of a record: its name, whether it must be there, and how its value
changes the record. -/
structure Field (α : Type) where
  name : String
  required : Bool
  set : Value → α → Except Fault α

/-- A record: what messages call it, its fields in order, and its value before any
field is read. -/
structure Shape (α : Type) where
  name : String
  fields : List (Field α)
  blank : α

namespace Shape

variable {α : Type}

/-- How a message names the shape as a list. -/
def asList (shape : Shape α) : String :=
  "struct " ++ shape.name ++ " with " ++ toString shape.fields.length ++
    (if shape.fields.length = 1 then " element" else " elements")

/-- Sets the fields that an object has, in the order of their names. -/
def setNamed (shape : Shape α) : List (String × Value) → α → Except Fault α
  | [], record => .ok record
  | (name, value) :: rest, record =>
      match shape.fields.find? (·.name == name) with
      | some field => do setNamed shape rest (← field.set value record)
      | none => setNamed shape rest record

/-- Sets fields from a list, in the order of the fields; `done` counts those set. -/
def setOrdered (shape : Shape α) (done : Nat) : List (Field α) → List Value → α → Except Fault α
  | [], _, record => .ok record
  | field :: fields, [], record =>
      if field.required then .error (.wrongLength done shape.asList)
      else setOrdered shape (done + 1) fields [] record
  | field :: fields, value :: values, record => do
      setOrdered shape (done + 1) fields values (← field.set value record)

/-- The first required field that is not among the names. -/
def missing? (shape : Shape α) (present : List (String × Value)) : Option String :=
  (shape.fields.find? fun field => field.required && !present.any (·.1 == field.name)).map (·.name)

/-- Reads a record. With `strict`, a list longer than the record is a fault. -/
def decode (shape : Shape α) (strict : Bool) : Value → Except Fault α
  | .object fields => do
      let record ← shape.setNamed fields shape.blank
      match shape.missing? fields with
      | some name => .error (.missingField name)
      | none => return record
  | .array values => do
      let record ← shape.setOrdered 0 shape.fields values shape.blank
      if strict && shape.fields.length < values.length then
        .error (.wrongLength values.length "fewer elements in array")
      else return record
  | v => .error (.wrongType v ("struct " ++ shape.name))

end Shape

end Workbench.Json
