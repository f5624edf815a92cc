/-
# Registries of tools

A registry holds one tool of a name; registering another one puts it in the place of
the first. Tools are called by name, with parameters that are an object.

* `Registry.execute` — calls a tool.
* `Registry.definitions` — what a model is told of the tools, ordered by name.
-/

import Workbench.Tool.Basic

namespace Workbench.Tool

open Workbench.Json

/-- Tools, one of a name. -/
structure Registry (σ : Type) where
  tools : List (Callable σ)

namespace Registry

variable {σ : Type}

/-- The registry of no tool. -/
def empty : Registry σ := ⟨[]⟩

/-- Puts a tool in its place in the order of names. -/
def put (tool : Callable σ) : List (Callable σ) → List (Callable σ)
  | [] => [tool]
  | other :: rest =>
      if tool.name < other.name then tool :: other :: rest
      else if tool.name = other.name then tool :: rest
      else other :: put tool rest

/-- Adds a tool, or replaces the one of its name. -/
def register (r : Registry σ) (tool : Callable σ) : Registry σ :=
  ⟨put tool r.tools⟩

/-- The tool of a name. -/
def get? (r : Registry σ) (name : String) : Option (Callable σ) :=
  r.tools.find? (·.name == name)

/-- The names of the tools, in order. -/
def names (r : Registry σ) : List String :=
  r.tools.map (·.name)

/-- What a model is told of the tools, in the order of their names. -/
def definitions (r : Registry σ) : Value :=
  .array (r.tools.map fun tool =>
    .object [("name", .string tool.name), ("description", .string tool.description),
      ("input_schema", tool.schema)])

/-- Calls a tool. -/
def execute (r : Registry σ) (name : String) (parameters : Value) (state : σ) : Result × σ :=
  match r.get? name with
  | none => (.failedAs "UnknownToolError" ("no tool named '" ++ name ++ "'"), state)
  | some tool =>
      match parameters with
      | .object _ => tool.run parameters state
      | _ => (.misused "parameters must be a JSON object", state)

end Registry

end Workbench.Tool
