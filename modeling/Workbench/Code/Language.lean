/-
# Languages

A language says how sources are read, which kinds of construct are definitions, and
what it is called. How a source is read is a matter of its grammar, which comes from
elsewhere and may be of no use. A registry finds the language of a file by its
extension; the spelling of an extension does not matter as to leading dots and the
case of ASCII letters.

* `Grammar` — what is asked of a grammar, whichever it is.
* `Language` — name, kinds of definition, grammar.
* `Language.fault?` — why a source cannot be read.
* `Registry` — extensions in the order of their registration.
* `Registry.builtin` — Python, Java and Rust, with any grammars.
-/

import Workbench.Code.Outline

namespace Workbench.Code

/-- A grammar, which is not part of the program. -/
structure Grammar where
  /-- Why the grammar cannot be used at all. -/
  refusal : Option String
  /-- Why constructs of a kind that have a name cannot be searched for. -/
  kindRefusal : String → Option String
  /-- The outline of a source, if it is read. -/
  read : List Char → Option Outline

/-- Why a source cannot be read. -/
inductive ParseFault where
  | language (name reason : String)
  | kind (kind name reason : String)
  | source (path : String)
  deriving DecidableEq, Repr

/-- The wording of such a fault. -/
def ParseFault.message : ParseFault → String
  | language name reason => "Failed to set " ++ name ++ " language: " ++ reason
  | kind wanted name reason =>
      "Failed to compile " ++ wanted ++ " query for " ++ name ++ ": " ++ reason
  | source path => "Failed to parse " ++ path

/-- A source language: its name, the kinds of its definitions in the order in which
they are listed, and its grammar. -/
structure Language where
  name : String
  definitionKinds : List String
  grammar : Grammar

namespace Language

/-- Python: functions and methods. -/
def python (grammar : Grammar) : Language :=
  ⟨"python", ["function_definition"], grammar⟩

/-- Java: constructors, then methods. -/
def java (grammar : Grammar) : Language :=
  ⟨"java", ["constructor_declaration", "method_declaration"], grammar⟩

/-- Rust: functions. -/
def rust (grammar : Grammar) : Language :=
  ⟨"rust", ["function_item"], grammar⟩

/-- The outline of a source; nothing for one that is not read. -/
def outline (language : Language) (source : List Char) : Outline :=
  (language.grammar.read source).getD []

/-- Why the grammar of a language cannot be used. -/
def unusable? (language : Language) : Option ParseFault :=
  (language.grammar.refusal.map (.language language.name)) <|>
    language.definitionKinds.findSome? fun kind =>
      (language.grammar.kindRefusal kind).map (.kind kind language.name)

/-- Why a source cannot be read. -/
def fault? (language : Language) (path : String) (source : List Char) : Option ParseFault :=
  language.unusable? <|>
    if (language.grammar.read source).isSome then none else some (.source path)

end Language

/-- The grammars of the languages that are built in. -/
structure Grammars where
  python : Grammar
  java : Grammar
  rust : Grammar

/-- The normal form of an extension: without leading dots, in lowercase. -/
def normalExtension (extension : String) : String :=
  String.ofList ((extension.toList.dropWhile (· == '.')).map Char.toLower)

/-- Languages by extension. -/
structure Registry where
  entries : List (String × Language)

namespace Registry

/-- The registry of no language. -/
def empty : Registry := ⟨[]⟩

/-- Puts a language in the place of the entry of a key, or at the end. -/
def put (key : String) (language : Language) : List (String × Language) → List (String × Language)
  | [] => [(key, language)]
  | (other, old) :: rest =>
      if other = key then (key, language) :: rest else (other, old) :: put key language rest

/-- Adds the language of an extension, or replaces it. -/
def register (r : Registry) (extension : String) (language : Language) : Registry :=
  ⟨put (normalExtension extension) language r.entries⟩

/-- The language of an extension. -/
def get? (r : Registry) (extension : String) : Option Language :=
  (r.entries.find? (·.1 == normalExtension extension)).map (·.2)

/-- The normal forms of the extensions. -/
def extensions (r : Registry) : List String :=
  r.entries.map (·.1)

/-- The registry of the listed extensions; those without a language are left out. -/
def select (r : Registry) (wanted : List String) : Registry :=
  wanted.foldl (fun selected extension =>
    match r.get? extension with
    | some language => selected.register extension language
    | none => selected) empty

/-- Python, Java and Rust. -/
def builtin (g : Grammars) : Registry :=
  ((empty.register "py" (.python g.python)).register "java" (.java g.java)).register "rs"
    (.rust g.rust)

/-- The extensions of the languages that are built in. -/
def builtinExtensions : List String :=
  ["py", "java", "rs"]

theorem extensions_builtin (g : Grammars) : (builtin g).extensions = builtinExtensions := rfl

/-- The languages that are built in are found by their extensions, whatever their grammars. -/
theorem isSome_get?_builtin (g : Grammars) (extension : String) :
    ((builtin g).get? extension).isSome = decide (normalExtension extension ∈ builtinExtensions) := by
  have hkeys : (builtin g).entries.map (·.1) = builtinExtensions := extensions_builtin g
  rw [Bool.eq_iff_iff, decide_eq_true_iff, ← hkeys, get?, Option.isSome_map, List.find?_isSome,
    List.mem_map]
  simp only [beq_iff_eq]

end Registry

end Workbench.Code
