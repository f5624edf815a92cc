/-
# Utilities

Programs that a shell runs. A utility is given arguments and an input and works on files;
it writes, in order, to its output and to its error stream, and ends with a status.
-/

import Workbench.Shell.Machine

namespace Workbench.Shell

open Workbench.Text Workbench.Files

/-- What a utility is given. -/
structure Given where
  name : String
  arguments : List String
  input : String
  tree : Tree
  /-- The variables that it can see. -/
  bindings : List (String × String) := []

/-- What a utility does: what it writes, each text with whether it is an error, the
status, the files then, and whether it reads its input. -/
structure Done where
  written : List (Bool × String) := []
  status : Nat := 0
  tree : Tree
  readsInput : Bool := false

/-- A utility. -/
abbrev Utility := Given → Done

namespace Given

/-- It writes a text. -/
def tells (g : Given) (text : String) : Done :=
  { written := [(false, text)], tree := g.tree }

/-- It fails with a message. -/
def fails (g : Given) (message : String) (status : Nat) : Done :=
  { written := [(true, g.name ++ ": " ++ message ++ "\n")], status, tree := g.tree }

/-- It is not used as it should be, and its help is pointed to. -/
def isMisused (g : Given) (message : String) (status : Nat) : Done :=
  g.fails (message ++ "\nTry '" ++ g.name ++ " --help' for more information.") status

end Given

/-- The wording of a fault. -/
def faultText (fault : Files.Fault) : String :=
  (fault.message.splitOn " (os error").headD ""

/-! ### Arguments -/

/-- The options of a utility, each with its value if it takes one, and its operands. -/
structure Options where
  given : List (String × String) := []
  operands : List String := []

namespace Options

/-- The options that letters behind one dash give, and one of them that waits for its
value. -/
def ofLetters (valued : List String) : List Char → List (String × String) × Option String
  | [] => ([], none)
  | c :: more =>
      let key := String.singleton c
      if valued.contains key then
        if more = [] then ([], some key) else ([(key, String.ofList more)], none)
      else
        let (given, waiting) := ofLetters valued more
        ((key, "") :: given, waiting)

/-- Adds options before others. -/
def give (o : Options) (given : List (String × String)) : Options :=
  { o with given := given ++ o.given }

/-- Reads arguments after an option that may wait for its value. -/
def readFrom (valued : List String) : Option String → List String → Options
  | _, [] => {}
  | some key, value :: rest => (readFrom valued none rest).give [(key, value)]
  | none, argument :: rest =>
      match argument.toList with
      | ['-', '-'] => ⟨[], rest⟩
      | '-' :: '-' :: name =>
          (readFrom valued none rest).give [(String.ofList (name.takeWhile (· != '=')),
            String.ofList ((name.dropWhile (· != '=')).drop 1))]
      | '-' :: c :: letters =>
          let (given, waiting) := ofLetters valued (c :: letters)
          (readFrom valued waiting rest).give given
      | _ =>
          let o := readFrom valued none rest
          { o with operands := argument :: o.operands }

/-- Reads arguments; `valued` are the options that take a value. -/
def read (valued : List String) (arguments : List String) : Options :=
  readFrom valued none arguments

/-- One of the options is given. -/
def has (o : Options) (keys : List String) : Bool :=
  o.given.any fun (key, _) => keys.contains key

/-- The last value of one of the options. -/
def value? (o : Options) (keys : List String) : Option String :=
  ((o.given.filter fun (key, _) => keys.contains key).getLast?).map (·.2)

/-- The last value of one of the options as a number. -/
def number? (o : Options) (keys : List String) : Option Nat :=
  (o.value? keys).bind String.toNat?

end Options

/-! ### Lines -/

/-- The lines of a text without what ends them. -/
def linesOf (text : String) : List String :=
  match (text.splitOn "\n").reverse with
  | "" :: rest => rest.reverse
  | parts => parts.reverse

/-- A text of lines. -/
def ofLines (lines : List String) : String :=
  String.join (lines.map (· ++ "\n"))

/-- A number with blanks in front, up to a width. -/
def aligned (width n : Nat) : String :=
  let digits := toString n
  String.ofList (List.replicate (width - digits.length) ' ') ++ digits

/-! ### Inputs -/

/-- What a file holds. -/
def contentAt (tree : Tree) (path : String) : Except Files.Fault String :=
  match path with
  | "/dev/null" => .ok ""
  | "/dev/zero" => .ok (String.ofList (List.replicate (Nat.pow 2 17) '\x00'))
  | _ => (tree.read (pathOf path)).map fun content => ofBytes content.octets

/-- An operand that names the input itself. -/
def isInput (operand : String) : Bool :=
  operand = "-" || operand = "/dev/stdin"

/-- The inputs that operands name; if there are none, it is the input itself. -/
def Given.inputs (g : Given) (operands : List String) :
    List (String × Except Files.Fault String) :=
  match operands with
  | [] => [("-", .ok g.input)]
  | _ => operands.map fun path =>
      if isInput path then (path, .ok g.input) else (path, contentAt g.tree path)

/-- Whether operands name the input itself. -/
def readsInput (operands : List String) : Bool :=
  operands = [] || operands.any isInput

/-- Works on every input that operands name; those that cannot be read are told of. -/
def Given.onEach (g : Given) (operands : List String) (complaint : String → Files.Fault → String)
    (work : String → String → String) : Done :=
  let results := (g.inputs operands).map fun (name, content) =>
    match content with
    | .ok text => (false, work name text)
    | .error fault => (true, g.name ++ ": " ++ complaint name fault ++ "\n")
  { written := results, status := if results.any (·.1) then 1 else 0, tree := g.tree
    readsInput := readsInput operands }

/-- Works on all inputs that operands name as on one. -/
def Given.onAll (g : Given) (operands : List String) (complaint : String → Files.Fault → String)
    (status : Nat) (work : String → String) : Done :=
  let inputs := g.inputs operands
  match inputs.find? fun (_, content) => !content.isOk with
  | some (name, .error fault) => g.fails (complaint name fault) status
  | _ =>
      { g.tells (work (String.join (inputs.map fun (_, content) => content.toOption.getD ""))) with
        readsInput := readsInput operands }

/-- How files are told of that cannot be read. -/
def plainComplaint (name : String) (fault : Files.Fault) : String :=
  name ++ ": " ++ faultText fault

end Workbench.Shell
