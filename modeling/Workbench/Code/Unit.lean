/-
# Units of a source

A source is indexed as units: the whole file, and each of its named definitions.

* `UnitKind` — file or definition, and how each is written.
* `CodeUnit` — a unit: its file, its name if it is a definition, its text.
* `Language.units` — the units of a source: the file, then the definitions by
  kind, each kind in the order of the source.
-/

import Workbench.Code.Language

namespace Workbench.Code

/-- What a unit is. -/
inductive UnitKind where
  | file
  | definition
  deriving DecidableEq, Repr

namespace UnitKind

/-- The written form. -/
def text : UnitKind → String
  | file => "file"
  | definition => "definition"

/-- Reads a written form. -/
def ofText? : String → Option UnitKind
  | "file" => some file
  | "definition" => some definition
  | _ => none

end UnitKind

/-- A whole file, or one definition of it. -/
structure CodeUnit where
  path : String
  name : Option String
  kind : UnitKind
  text : String
  deriving DecidableEq, Repr

/-- The unit of a whole file. -/
def CodeUnit.ofFile (path source : String) : CodeUnit :=
  ⟨path, none, .file, source⟩

/-- The unit of a definition; none if its name is empty. -/
def CodeUnit.ofConstruct? (path : String) (source : List Char) (c : Construct) : Option CodeUnit :=
  let name := slice source c.nameStart c.nameStop
  if name = [] then none
  else some ⟨path, some (String.ofList name), .definition, String.ofList (slice source c.start c.stop)⟩

/-- The units of a source with a given outline. -/
def unitsOf (kinds : List String) (outline : Outline) (path source : String) : List CodeUnit :=
  CodeUnit.ofFile path source ::
    (kinds.flatMap fun kind => Outline.ofKind kind outline).filterMap
      (CodeUnit.ofConstruct? path source.toList)

/-- The units of a source of a language. -/
def Language.units (language : Language) (path source : String) : List CodeUnit :=
  unitsOf language.definitionKinds (language.outline source.toList) path source

end Workbench.Code
