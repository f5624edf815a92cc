/-
# The state of a shell

A shell has variables, functions, and streams that are opened from and to somewhere. What
is written is collected in buffers: the two that the shell was started with, and one for
every pipe. What can be read lies in buffers as well; the first of them is the script
itself, as far as it has not been read.

* `Machine.write`, `Machine.input` — what streams do.
* `Run` — what a command does to a shell, and how it can end early.
-/

import Workbench.Shell.Syntax
import Workbench.Files.Access

namespace Workbench.Shell

open Workbench.Text Workbench.Files

/-! ### Bytes as characters -/

/-- A text of which every character is a byte. -/
def ofBytes (bytes : Octets) : String :=
  String.ofList (bytes.map fun b => Char.ofNat b.toNat)

/-- The bytes that the characters of a text are. -/
def bytesOf (text : String) : Octets :=
  text.toList.map fun c => UInt8.ofNat c.toNat

/-- A text as the shell sees it. -/
def seen (text : String) : String :=
  ofBytes (Octets.ofText text)

/-- A text of the shell as a name of a file. -/
def pathOf (text : String) : String :=
  Octets.lenient (bytesOf text)

/-- Where a stream leads to or comes from. -/
inductive Target where
  | buffer (i : Nat)
  | file (path : String)
  | input (i : Nat)
  | nowhere
  deriving DecidableEq, Repr

/-- The state of a shell. -/
structure Machine where
  tree : Tree
  /-- What is written. -/
  buffers : Array String
  /-- What can be read. -/
  inputs : Array (List Char)
  streams : List (Nat × Target)
  bindings : List (String × String)
  exported : List String
  /-- Variables whose values stay. -/
  fixed : List String := []
  /-- What the shell was started as, and what messages name as the place of a line. -/
  name : String := "bash"
  script : String := "bash"
  arguments : List String := []
  functions : List (String × Command) := []
  /-- What is to be done on signals, and at the end. -/
  traps : List (String × String) := []
  options : List String := []
  status : Nat := 0
  line : Nat := 1
  /-- How many functions have been called and have not returned. -/
  depth : Nat := 0
  /-- How many loops are running in the function. -/
  loops : Nat := 0
  /-- What the variables of running functions were outside of them. -/
  outer : List (List (String × Option String)) := []

namespace Machine

/-! ### Streams -/

/-- Where a stream leads to or comes from. -/
def target? (m : Machine) (stream : Nat) : Option Target :=
  m.streams.lookup stream

/-- Opens a stream. -/
def opened (m : Machine) (stream : Nat) (target : Target) : Machine :=
  { m with streams := (stream, target) :: m.streams.filter (·.1 != stream) }

/-- Closes a stream. -/
def closed (m : Machine) (stream : Nat) : Machine :=
  { m with streams := m.streams.filter (·.1 != stream) }

/-- Writes to a stream. -/
def write (m : Machine) (stream : Nat) (text : String) : Machine :=
  match m.target? stream with
  | some (.buffer i) => { m with buffers := m.buffers.modify i (· ++ text) }
  | some (.file path) =>
      let old := match m.tree.read path with
        | .ok content => content.octets
        | .error _ => []
      match m.tree.write path (.ofOctets (old ++ bytesOf text)) with
      | .ok tree => { m with tree }
      | .error _ => m
  | _ => m

/-- What can be read from a stream. -/
def input (m : Machine) (stream : Nat) : List Char :=
  match m.target? stream with
  | some (.input i) => (m.inputs[i]?).getD []
  | _ => []

/-- Leaves something of what can be read from a stream. -/
def leave (m : Machine) (stream : Nat) (rest : List Char) : Machine :=
  match m.target? stream with
  | some (.input i) => { m with inputs := m.inputs.set! i rest }
  | _ => m

/-- Adds a buffer to read from. -/
def withInput (m : Machine) (text : List Char) : Nat × Machine :=
  (m.inputs.size, { m with inputs := m.inputs.push text })

/-- Adds a buffer to write to. -/
def withBuffer (m : Machine) : Nat × Machine :=
  (m.buffers.size, { m with buffers := m.buffers.push "" })

/-- Says on the error stream what is wrong. -/
def complain (m : Machine) (text : String) : Machine :=
  m.write 2 ((if m.depth = 0 || m.script != "bash" then m.script else "main") ++ ": line " ++ toString m.line ++ ": " ++
    text ++ "\n")

/-! ### Variables -/

/-- The number that the shell is known by. -/
def processNumber : String := "4242"

/-- The value of a variable. -/
def value? (m : Machine) (name : String) : Option String :=
  match name with
  | "?" => some (toString m.status)
  | "$" => some processNumber
  | "#" => some (toString m.arguments.length)
  | "0" => some m.name
  | "-" => some (String.join ((m.options.filter (·.length = 1)) ++ ["hBs"]))
  | "LINENO" => some (toString m.line)
  | "!" => none
  | _ =>
      if name.all Char.isDigit then m.arguments[(name.toNat?.getD 0) - 1]?
      else m.bindings.lookup name

/-- Gives a variable a value. -/
def set (m : Machine) (name value : String) : Machine :=
  { m with bindings := (name, value) :: m.bindings.filter (·.1 != name) }

/-- Takes a variable away. -/
def unset (m : Machine) (name : String) : Machine :=
  { m with bindings := m.bindings.filter (·.1 != name) }

/-- An option is set. -/
def has (m : Machine) (option : String) : Bool :=
  m.options.contains option

/-- The characters at which values are split. -/
def separators (m : Machine) : List Char :=
  ((m.bindings.lookup "IFS").getD " \t\n").toList

end Machine

/-! ### Running -/

/-- How a command ends what is around it. -/
inductive Flow where
  | exit (status : Nat)
  /-- By a signal. -/
  | killed (signal : Nat)
  /-- The line is given up. -/
  | given (status : Nat)
  | break (levels : Nat)
  | continue (levels : Nat)
  | return (status : Nat)
  deriving DecidableEq, Repr

/-- What a command does to a shell. -/
abbrev Run := ExceptT Flow (StateM Machine)

/-- Says what is wrong. -/
def complain (text : String) : Run Unit :=
  modify (·.complain text)

/-- Sets the status of the last command. -/
def setStatus (status : Nat) : Run Unit :=
  modify fun m => { m with status }

/-- Writes to the standard output. -/
def put (text : String) : Run Unit :=
  modify (·.write 1 text)

/-- Runs something in a copy of the shell: only files, and what is written and read, stay
changed. A signal is one to the shell itself. -/
def apart (act : Run Unit) : Run Unit := do
  let before ← get
  let (flow, after) := act.run before
  let status := match flow with
    | .error (.exit status) => status
    | .error (.given status) => status
    | .error (.return status) => status
    | _ => after.status
  set { before with
    tree := { after.tree with here := before.tree.here }
    buffers := after.buffers
    inputs := after.inputs
    status }
  match flow with
  | .error (.killed signal) => throw (.killed signal)
  | _ => return

/-- What a run in a copy of the shell writes. -/
def outputOf (act : Run Unit) : Run String := do
  let before ← get
  let (i, m) := before.withBuffer
  set (m.opened 1 (.buffer i))
  apart act
  modify fun m => { m with streams := before.streams }
  return ((← get).buffers[i]?).getD ""

end Workbench.Shell
