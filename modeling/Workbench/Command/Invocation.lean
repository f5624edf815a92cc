/-
# Reading command lines

A command line is read from the left. It can be stopped short by a wish for help or for
the version, or by something that is no use of the program; what comes first counts.

* `Invocation.ofArguments` — what a command line asks for.
-/

import Workbench.Command.Help

namespace Workbench.Command

/-- What a command is to do. -/
inductive Action where
  | view (path : String) (range : Option (Int × Int))
  | tree (directory : Option String) (depth : Option Nat)
  | index (collection : Option String) (isCleared : Bool)
  | search (query : String) (count : Nat) (collection : Option String)
  | diff (isSaved : Bool)
  | tools
  | session
  deriving DecidableEq, Repr

/-- What a command line asks for. -/
structure Invocation where
  config : Option String
  project : String
  action : Action
  deriving DecidableEq, Repr

/-- Why a command line asks for no action. -/
inductive Halt where
  | misuse
  | told (text : String)
  deriving DecidableEq, Repr

/-- What of a command line has been read: the options given so far, each with its
values, those given before the command, and the arguments. -/
structure Draft where
  given : List (OptionForm × List String) := []
  above : List (OptionForm × List String) := []
  arguments : List String := []

/-- A text is taken for an option and not for a value or an argument. -/
def looksLikeOption (text : String) : Bool :=
  text.startsWith "-" && text != "-"

/-- A text is a value after an option that takes values of a kind. -/
def isValue (kind : ValueKind) (text : String) : Bool :=
  kind.admits text && (!looksLikeOption text || kind = .number)

/-- The values of an option, and what follows them; `attached` is the value that is
written together with the option. -/
def valuesOf (o : OptionForm) (attached : Option String) (rest : List String) :
    Except Halt (List String × List String) :=
  match attached with
  | some value =>
      if o.values.length = 1 && o.kind.admits value then .ok ([value], rest) else .error .misuse
  | none =>
      let values := rest.take o.values.length
      if values.length = o.values.length && values.all (isValue o.kind) then
        .ok (values, rest.drop o.values.length)
      else .error .misuse

/-- What is told when help is wanted. -/
def helpFor (command : Option CommandForm) : String :=
  match command with
  | some c => c.help
  | none => programHelp

/-- Notes an option that is given with its values. -/
def Draft.give (command : Option CommandForm) (d : Draft) (o : OptionForm)
    (values : List String) : Except Halt Draft :=
  if o = helpOption then .error (.told (helpFor command))
  else if o = versionOption then
    .error (.told (programName ++ " " ++ programVersion ++ "\n"))
  else if !o.isRepeatable && d.given.any (·.1 == o) then .error .misuse
  else .ok { d with given := d.given ++ [(o, values)] }

/-- The options that can be given. -/
def optionsFor : Option CommandForm → List OptionForm
  | some c => c.options ++ generalOptions
  | none => generalOptions ++ [versionOption]

/-- Reads an option in its long form, without its dashes. -/
def readLong (command : Option CommandForm) (d : Draft) (text : String) (rest : List String) :
    Except Halt (Draft × List String) := do
  let name := String.ofList (text.toList.takeWhile (· != '='))
  let attached :=
    match text.toList.dropWhile (· != '=') with
    | _ :: value => some (String.ofList value)
    | [] => none
  match (optionsFor command).find? (·.long == some name) with
  | none => throw .misuse
  | some o =>
      let (values, rest) ← valuesOf o attached rest
      return (← d.give command o values, rest)

/-- Reads options in their short form, without the dash. -/
def readShort (command : Option CommandForm) (d : Draft) (rest : List String) :
    List Char → Except Halt (Draft × List String)
  | [] => .ok (d, rest)
  | c :: more =>
      match (optionsFor command).find? (·.short == some c) with
      | none => .error .misuse
      | some o =>
          if o.values = [] then do readShort command (← d.give command o []) rest more
          else do
            let attached :=
              match more with
              | [] => none
              | '=' :: value => some (String.ofList value)
              | value => some (String.ofList value)
            let (values, rest) ← valuesOf o attached rest
            return (← d.give command o values, rest)

/-- Notes an argument of a command. -/
def Draft.argue (c : CommandForm) (d : Draft) (text : String) : Except Halt Draft :=
  if c.argument.isSome && d.arguments = [] then .ok { d with arguments := [text] }
  else .error .misuse

/-- Reads what help is wanted about. -/
def helpAbout : List String → Halt
  | [] => .told programHelp
  | [name] =>
      if name = "help" then .told programHelp
      else ((CommandForm.named? name).map fun c => Halt.told c.help).getD .misuse
  | _ => .misuse

/-- Reads a command line from a place on. -/
def readFrom : Nat → Option CommandForm → Draft → List String →
    Except Halt (Option CommandForm × Draft)
  | 0, command, d, _ => .ok (command, d)
  | _, command, d, [] => .ok (command, d)
  | fuel + 1, command, d, text :: rest =>
      match text.toList with
      | ['-', '-'] =>
          match command with
          | some c => do return (command, ← rest.foldlM (Draft.argue c) d)
          | none => if rest = [] then .ok (command, d) else .error .misuse
      | '-' :: '-' :: name => do
          let (d, rest) ← readLong command d (String.ofList name) rest
          readFrom fuel command d rest
      | '-' :: c :: more => do
          let (d, rest) ← readShort command d rest (c :: more)
          readFrom fuel command d rest
      | _ =>
          match command with
          | some c => do readFrom fuel command (← d.argue c text) rest
          | none =>
              if text = "help" then .error (helpAbout rest)
              else match CommandForm.named? text with
                | some c => readFrom fuel (some c) { d with given := [], above := d.given } rest
                | none => .error .misuse

/-- The values of an option, of which those after the command count first. -/
def Draft.values? (d : Draft) (name : String) : Option (List String) :=
  ((d.given ++ d.above).find? (·.1.name == name)).map (·.2)

/-- The one value of an option. -/
def Draft.value? (d : Draft) (name : String) : Option String :=
  (d.values? name).bind List.head?

/-- An option is given. -/
def Draft.has (d : Draft) (name : String) : Bool :=
  (d.values? name).isSome

/-- The range that a view is limited to. -/
def Draft.range? (d : Draft) : Option (Int × Int) :=
  match d.values? "range" with
  | some [first, last] => do return (← number? first, ← number? last)
  | _ => none

/-- What a command that has been read is to do; one without an argument that it needs is
no use of the program. -/
def actionOf (c : CommandForm) (d : Draft) : Option Action :=
  match c.name, d.arguments with
  | "view", [path] => some (.view path d.range?)
  | "tree", arguments => some (.tree arguments.head? ((d.value? "depth").bind size?))
  | "index", [] => some (.index (d.value? "collection") (d.has "clear"))
  | "search", [query] =>
      some (.search query (((d.value? "k").bind size?).getD 10) (d.value? "collection"))
  | "diff", [] => some (.diff (d.has "save"))
  | "tools", [] => some .tools
  | "session", [] => some .session
  | _, _ => none

/-- What a command line asks for. -/
def Invocation.ofArguments (arguments : List String) : Except Halt Invocation := do
  let (command, d) ← readFrom (arguments.length + 1) none {} arguments
  match command.bind fun c => actionOf c d with
  | some action => return ⟨d.value? "config", (d.value? "project").getD ".", action⟩
  | none => throw .misuse

end Workbench.Command
