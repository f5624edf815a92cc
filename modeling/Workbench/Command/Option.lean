/-
# Options of commands

What can be written on a command line: options with the values that they take, and the
commands with the options and the arguments of their own.

* `CommandForm.all` — the commands.
* `generalOptions` — the options that every command has.
-/

import Workbench.Json.Decode

namespace Workbench.Command

/-- The name of the program. -/
def programName : String := "patchwright"

/-- The version of the program. -/
def programVersion : String := "0.1.0"

/-- What the program does. -/
def programAbout : String :=
  "Structural file editing and semantic code search for issue-resolving agents"

/-- What a value can be. -/
inductive ValueKind where
  | text
  /-- A path, which is not empty. -/
  | path
  | size
  | number
  deriving DecidableEq, Repr

/-- A text without the sign that a number may have. -/
def digitsOf (text : String) : List Char :=
  match text.toList with
  | '+' :: rest => rest
  | s => s

/-- The natural number that a text is, if it fits in a word. -/
def size? (text : String) : Option Nat :=
  let digits := digitsOf text
  if digits.isEmpty || !digits.all Char.isDigit then none
  else
    let n := digits.foldl (fun n c => 10 * n + (c.toNat - '0'.toNat)) 0
    if n < Nat.pow 2 64 then some n else none

/-- The number that a text is, if it fits in a word with a sign. -/
def number? (text : String) : Option Int :=
  match text.toList with
  | '-' :: rest =>
      if rest.head? = some '+' then none
      else (size? (String.ofList rest)).bind fun n =>
        if n ≤ Nat.pow 2 63 then some (-n) else none
  | _ => (size? text).bind fun n => if n < Nat.pow 2 63 then some (n : Int) else none

/-- A value is one of a kind. -/
def ValueKind.admits (kind : ValueKind) (value : String) : Bool :=
  match kind with
  | text => true
  | path => value != ""
  | size => (size? value).isSome
  | number => (number? value).isSome

/-- An option: how it is written, what its values are called, what they can be, whether
it can be given more than once, and what is told of it. -/
structure OptionForm where
  long : Option String
  short : Option Char
  values : List String := []
  kind : ValueKind := .text
  isRepeatable : Bool := false
  /-- The place among other options, where they are told. -/
  rank : Nat := 0
  about : String := ""
  default : Option String := none
  deriving DecidableEq, Repr

/-- What an option is known by. -/
def OptionForm.name (o : OptionForm) : String :=
  o.long.getD (o.short.elim "" String.singleton)

/-- The option that tells of the others. -/
def helpOption : OptionForm where
  long := some "help"
  short := some 'h'
  rank := 999
  about := "Print help"

/-- The option that tells the version. -/
def versionOption : OptionForm where
  long := some "version"
  short := some 'V'
  rank := 999
  about := "Print version"

/-- The options that every command has, and that can also be written before it. -/
def generalOptions : List OptionForm := [
  { long := some "config", short := none, values := ["CONFIG"], kind := .path, rank := 0
    about := "Config file (default: <config dir>/patchwright/config.toml)" },
  { long := some "project", short := some 'p', values := ["PROJECT"], kind := .path, rank := 1
    about := "Project directory the tools operate on", default := some "." },
  { long := some "verbose", short := some 'v', isRepeatable := true, rank := 2
    about := "Increase log verbosity (-v info, -vv debug)" },
  helpOption]

/-- A command: its name, its options, what its argument is called and whether it needs
one, and what is told of it. -/
structure CommandForm where
  name : String
  about : String
  options : List OptionForm := []
  argument : Option (String × Bool) := none
  deriving DecidableEq, Repr

/-- The option for the name of a collection. -/
def collectionOption (rank : Nat) : OptionForm where
  long := some "collection"
  short := none
  values := ["COLLECTION"]
  rank := rank

/-- The commands. -/
def CommandForm.all : List CommandForm := [
  { name := "view", argument := some ("PATH", true)
    about := "Show a file with line numbers, or a directory two levels deep"
    options := [{
      long := some "range", short := none, values := ["START", "END"], kind := .number
      isRepeatable := true
      about := "First and last line (1-based, -1 for the end of the file)" }] },
  { name := "tree", argument := some ("DIR", false)
    about := "List the project structure, reducing depth for large trees"
    options := [{ long := some "depth", short := none, values := ["DEPTH"], kind := .size }] },
  { name := "index"
    about := "Build (or reuse) the project's collection"
    options := [collectionOption 0, {
      long := some "clear", short := none, rank := 1
      about := "Remove the persisted collection instead of building it" }] },
  { name := "search", argument := some ("QUERY", true)
    about := "Search the project's collection and explain each hit"
    options := [
      { long := none, short := some 'k', values := ["K"], kind := .size, default := some "10" },
      collectionOption 1] },
  { name := "diff"
    about := "Unified diff of the working tree against HEAD"
    options := [{
      long := some "save", short := none
      about := "Also write it to \x60<patch dir>/<project>@<timestamp>.patch\x60" }] },
  { name := "tools", about := "Print the tool definitions as JSON" },
  { name := "session"
    about := "Run tool calls read as JSON lines from stdin, one envelope per line" }]

/-- The command of a name. -/
def CommandForm.named? (name : String) : Option CommandForm :=
  CommandForm.all.find? (·.name == name)

end Workbench.Command
