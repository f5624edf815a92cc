/-
# Writing JSON

The written form of a value: compact on one line, or indented by two blanks a
level. Only quotes, backslashes and control characters are escaped, so a written
value has no raw newline unless it is indented.
-/

import Workbench.Json.Value
import Workbench.Text.Octets

namespace Workbench.Json

open Workbench.Decimal Workbench.Text

/-- A double of JSON is positional from 1e-5 to below 1e16 and always shows a
point or an exponent; an exponent shows its sign. -/
def doubleLayout : Layout :=
  ⟨-5, 16, true, true⟩

/-- The written form of a double; JSON has none for NaN and the infinities. -/
def renderDouble (x : Float) : String :=
  if x.isNaN || x.isInf then "null" else doubleLayout.render x

namespace Number

/-- The written form of a number. -/
def render : Number → String
  | whole n => toString n
  | double x => renderDouble x

end Number

namespace Writer

/-- The written form of a character inside quotes. -/
def escape (c : Char) : List Char :=
  if c = '"' then ['\\', '"']
  else if c = '\\' then ['\\', '\\']
  else if c = '\n' then ['\\', 'n']
  else if c = '\r' then ['\\', 'r']
  else if c = '\t' then ['\\', 't']
  else if c = '\x08' then ['\\', 'b']
  else if c = '\x0c' then ['\\', 'f']
  else if c.toNat < 32 then
    ['\\', 'u', '0', '0', Octets.hexDigit (c.toNat / 16), Octets.hexDigit (c.toNat % 16)]
  else [c]

/-- A text in quotes. -/
def quote (s : String) : List Char :=
  '"' :: s.toList.flatMap escape ++ ['"']

/-- Texts with a separator between neighbours. -/
def join (separator : List Char) : List (List Char) → List Char
  | [] => []
  | [s] => s
  | s :: rest => s ++ separator ++ join separator rest

mutual

/-- The compact form. -/
def compact : Value → List Char
  | .null => "null".toList
  | .bool true => "true".toList
  | .bool false => "false".toList
  | .number n => n.render.toList
  | .string s => quote s
  | .array items => '[' :: join [','] (compactItems items) ++ [']']
  | .object fields => '\x7b' :: join [','] (compactFields fields) ++ ['\x7d']

/-- The compact forms of items. -/
def compactItems : List Value → List (List Char)
  | [] => []
  | item :: rest => compact item :: compactItems rest

/-- The compact forms of fields. -/
def compactFields : List (String × Value) → List (List Char)
  | [] => []
  | (name, value) :: rest => (quote name ++ ':' :: compact value) :: compactFields rest

end

/-- A new line at a level of indentation. -/
def newline (level : Nat) : List Char :=
  '\n' :: List.replicate (2 * level) ' '

/-- Indented parts between brackets; nothing stands between the brackets of none. -/
def block (level : Nat) (opening closing : Char) (parts : List (List Char)) : List Char :=
  match parts with
  | [] => [opening, closing]
  | _ =>
      opening :: newline (level + 1) ++ join (',' :: newline (level + 1)) parts ++
        newline level ++ [closing]

mutual

/-- The indented form of a value at a level. -/
def indented (level : Nat) : Value → List Char
  | .array items => block level '[' ']' (indentedItems (level + 1) items)
  | .object fields => block level '\x7b' '\x7d' (indentedFields (level + 1) fields)
  | .null => compact .null
  | .bool b => compact (.bool b)
  | .number n => compact (.number n)
  | .string s => compact (.string s)

/-- The indented forms of items. -/
def indentedItems (level : Nat) : List Value → List (List Char)
  | [] => []
  | item :: rest => indented level item :: indentedItems level rest

/-- The indented forms of fields. -/
def indentedFields (level : Nat) : List (String × Value) → List (List Char)
  | [] => []
  | (name, value) :: rest =>
      (quote name ++ ':' :: ' ' :: indented level value) :: indentedFields level rest

end

end Writer

namespace Value

/-- The value on one line. -/
def compact (v : Value) : String :=
  String.ofList (Writer.compact v)

/-- The value over several lines. -/
def pretty (v : Value) : String :=
  String.ofList (Writer.indented 0 v)

end Value

end Workbench.Json
