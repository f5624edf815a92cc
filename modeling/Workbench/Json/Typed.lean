/-
# Reading JSON of a known form

A text that should hold a value of one form is read with an eye on that form: a
value of another form is found where it stands, and the message says where.

* `Value.parseList` — the items of a text that should be a list.
-/

import Workbench.Json.Reader
import Workbench.Json.Decode

namespace Workbench.Json

namespace Reader

/-- Stops because the next value is not of the expected form. A list or an object
is found at its bracket, anything else where it ends. -/
def unexpected {α : Type} (expected : String) (s : List Char) : Except Stop α :=
  match skipBlanks s with
  | '[' :: rest => after (.data (Fault.wrongType (.array []) expected).message) ('[' :: rest)
  | '\x7b' :: rest => after (.data (Fault.wrongType (.object []) expected).message) ('\x7b' :: rest)
  | rest => do
      let (v, rest) ← value true 1 depthLimit rest
      after (.data (Fault.wrongType v expected).message) rest

/-- Reads a list of values. -/
def list (s : List Char) : Except Stop (List Value × List Char) :=
  match skipBlanks s with
  | '[' :: rest => items true true (fuelFor s) (depthLimit - 1) rest
  | rest => unexpected "a sequence" rest

end Reader

/-- The items of the list that a text is. -/
def Value.parseList (text : String) : Except Located (List Value) :=
  Reader.whole Reader.list text

end Workbench.Json
