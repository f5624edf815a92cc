/-
# Tools

A tool is something that a model can call by its name. A call gets parameters and changes a
state; which state that is differs from tool to tool. Every call ends in a result: an output,
or an error and no output.

* `Result` — what a call ends in.
* `Callable` — a tool.
* `parametersSchema`, `withParameters` — how the schema of a tool's parameters is written, and
  how parameters are read from the object that a call gives.
-/

import Workbench.Json.Decode

namespace Workbench.Tool

open Workbench.Json

/-! ### Results -/

/-- What a call of a tool ends in. -/
structure Result where
  ok : Bool
  output : String
  error : Option String
  deriving DecidableEq, Repr

namespace Result

/-- The call did what it was asked to do. -/
def done (output : String) : Result :=
  ⟨true, output, none⟩

/-- The call failed. -/
def failed (message : String) : Result :=
  ⟨false, "", some message⟩

/-- The call failed, with an error of a kind. -/
def failedAs (kind message : String) : Result :=
  failed (kind ++ ": " ++ message)

/-- The parameters of the call are not as they should be. -/
def misused (detail : String) : Result :=
  failedAs "InvalidParameterError" detail

/-- How a result is read. -/
def shape : Shape Result where
  name := "ToolResult"
  blank := ⟨false, "", none⟩
  fields := [
    ⟨"ok", true, fun v r => (Decode.bool v).map fun b => { r with ok := b }⟩,
    ⟨"output", true, fun v r => (Decode.text v).map fun s => { r with output := s }⟩,
    ⟨"error", false, fun v r => (Decode.optional Decode.text v).map fun e => { r with error := e }⟩]

/-- The written form of a result; no error is not written. -/
def json (r : Result) : Value :=
  .object <|
    [("ok", .bool r.ok), ("output", .string r.output)] ++
      (r.error.map fun e => ("error", Value.string e)).toList

end Result

/-! ### Tools -/

/-- A tool: what it is called, what a model is told of it, and what a call does to a
state. -/
structure Callable (σ : Type) where
  name : String
  description : String
  /-- What its parameters have to look like. -/
  schema : Value
  run : Value → σ → Result × σ

/-- The tool on a state of which its own state is a part. -/
def Callable.lift {α β : Type} (tool : Callable α) (get : β → α) (put : α → β → β) :
    Callable β where
  name := tool.name
  description := tool.description
  schema := tool.schema
  run parameters state :=
    let (result, part) := tool.run parameters (get state)
    (result, put part state)

/-! ### Parameters -/

/-- A schema of a type, with more to say about it. -/
def typed (type : String) (more : List (String × Value)) : Value :=
  Value.ofFields (("type", .string type) :: more)

/-- A schema of a type with a description. -/
def described (type description : String) : Value :=
  typed type [("description", .string description)]

/-- The schema of parameters, by name, of which some are required. -/
def parametersSchema (properties : List (String × Value)) (required : List String) : Value :=
  typed "object" <|
    ("properties", Value.ofFields properties) ::
      if required = [] then [] else [("required", .array (required.map .string))]

/-- A parameter that must be there. -/
def required {α β : Type} (name : String) (read : Value → Except Fault β) (set : α → β → α) :
    Json.Field α :=
  ⟨name, true, fun v p => (read v).map (set p)⟩

/-- A parameter that may be absent. -/
def optional {α β : Type} (name : String) (read : Value → Except Fault β) (set : α → β → α) :
    Json.Field α :=
  ⟨name, false, fun v p => (read v).map (set p)⟩

/-- What is done with parameters of a shape; others are a misuse. -/
def withParameters {α σ : Type} (shape : Shape α) (v : Value) (state : σ)
    (act : α → σ → Result × σ) : Result × σ :=
  match shape.decode true v with
  | .ok parameters => act parameters state
  | .error fault => (.misused ("Invalid parameters: " ++ fault.message), state)

end Workbench.Tool
