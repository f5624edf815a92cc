/-
# Scanners

Grammars that find definitions by scanning the tokens of a source. They stand in for
full grammars where a program is to run without them, and find the definitions of
sources that are written plainly.

* `Grammars.scanned` — Python, Java and Rust.
-/

import Workbench.Code.Language
import Workbench.Code.Python
import Workbench.Code.Java
import Workbench.Code.Rust

namespace Workbench.Code

/-- The grammar that finds definitions by scanning. It reads every source. -/
def Grammar.scanning (definitions : List Char → List Construct) : Grammar where
  refusal := none
  kindRefusal _ := none
  read source := some (Outline.nest (definitions source))

/-- Scanners for the languages that are built in. -/
def Grammars.scanned : Grammars where
  python := .scanning Python.definitions
  java := .scanning Java.definitions
  rust := .scanning Rust.functions

end Workbench.Code
