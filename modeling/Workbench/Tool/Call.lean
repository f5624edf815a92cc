/-
# Written tool calls

A tool call is written as a JSON object with the name of a tool and perhaps
parameters, or as a list of the two. What is wrong with a written call is told with
its place.

* `Call.parse` — reads a call.
-/

import Workbench.Json.Typed

namespace Workbench.Tool

open Workbench.Json

/-- A call of a tool. -/
structure Call where
  tool : String
  parameters : Value

namespace Call

open Reader

/-- The parameters of a call that gives none. -/
def noParameters : Value :=
  .object []

/-- Reads the name of a tool. -/
def toolName (s : List Char) : Except Stop (String × List Char) :=
  match skipBlanks s with
  | '"' :: rest => string true rest
  | rest => unexpected "a string" rest

/-- Reads parameters. -/
def anyValue (wanted : Bool) (s : List Char) : Except Stop (Value × List Char) :=
  value wanted (fuelFor s) (depthLimit - 1) s

/-- Reads the end of a list of which no more items are wanted. -/
def listEnd (s : List Char) : Except Stop (List Char) :=
  match skipBlanks s with
  | [] => before .endInList []
  | ']' :: rest => .ok rest
  | ',' :: rest =>
      match skipBlanks rest with
      | ']' :: more => before .trailingComma (']' :: more)
      | more => before .trailingCharacters more
  | rest => before .trailingCharacters rest

/-- Reads a call written as a list, after its bracket. -/
def ofList (s : List Char) : Except Stop (Call × List Char) := do
  let (more, rest) ← nextItem true true s
  if more then
    let (tool, rest) ← toolName rest
    let (more, rest) ← nextItem true false rest
    if more then
      let (parameters, rest) ← anyValue true rest
      return (⟨tool, parameters⟩, ← listEnd rest)
    else return (⟨tool, noParameters⟩, ← listEnd rest)
  else
    after (.data (Fault.wrongLength 0 "struct SessionCall with 2 elements").message) (rest.drop 1)

/-- The fields of a call as far as they are read. -/
structure Draft where
  tool : Option String
  parameters : Option Value

/-- The call of which all fields are read; what is left starts with its brace. -/
def finishDraft (d : Draft) (rest : List Char) : Except Stop (Call × List Char) :=
  match d.tool with
  | some tool => .ok (⟨tool, d.parameters.getD noParameters⟩, rest.drop 1)
  | none => after (.data (Fault.missingField "tool").message) (rest.drop 1)

/-- Stops because a field is there a second time. -/
def duplicate {α : Type} (name : String) (s : List Char) : Except Stop α :=
  after (.data (Fault.duplicateField name).message) (skipBlanks s)

/-- Reads the fields of a call. -/
def fieldsFrom : Nat → Bool → Draft → List Char → Except Stop (Call × List Char)
  | 0, _, _, s => before .endInObject s
  | fuel + 1, isFirst, d, s => do
      let (more, rest) ← nextField true isFirst s
      if more then
        let (name, rest) ← string true rest
        match name with
        | "tool" =>
            if d.tool.isSome then duplicate name rest
            else
              let (tool, rest) ← toolName (← colon rest)
              fieldsFrom fuel false { d with tool := some tool } rest
        | "params" =>
            if d.parameters.isSome then duplicate name rest
            else
              let (parameters, rest) ← anyValue true (← colon rest)
              fieldsFrom fuel false { d with parameters := some parameters } rest
        | _ =>
            let (_, rest) ← anyValue false (← colon rest)
            fieldsFrom fuel false d rest
      else finishDraft d rest

/-- Reads a call. -/
def read (s : List Char) : Except Stop (Call × List Char) :=
  match skipBlanks s with
  | '[' :: rest => ofList rest
  | '\x7b' :: rest => fieldsFrom (rest.length + 1) true ⟨none, none⟩ rest
  | rest => unexpected "struct SessionCall" rest

/-- The call that a text is. -/
def parse (text : String) : Except Located Call :=
  whole read text

end Call

end Workbench.Tool
