/-
# Running scripts

A shell reads a script command by command and runs each before it reads on. The script is
the input of the shell, so that a command that reads the input takes away what follows.

* `perform` — runs a command.
* `bash` — the shell that runs the scripts of a tool.
-/

import Workbench.Shell.Program
import Workbench.Shell.Question
import Workbench.Shell.Reader
import Workbench.Tool.Commands

namespace Workbench.Shell

open Workbench.Text Workbench.Files

/-! ### Turns -/

/-- Takes turns, each from what the last one has left, until one says that it was the last,
or too many were taken. -/
def turns {σ : Type} (turn : σ → Run (Option σ)) : Nat → σ → Run Unit
  | 0, _ => return
  | n + 1, s => ExceptT.mk fun m =>
      match (turn s).run m with
      | (.ok (some s), m) => (turns turn n s).run m
      | (.ok none, m) => (.ok (), m)
      | (.error flow, m) => (.error flow, m)

/-- How many turns a loop may take. -/
def turnLimit : Nat := 1000000

/-- Runs a part of a loop; says whether the loop goes on. -/
def inLoop (act : Run Unit) : Run Bool := do
  match ← caught act with
  | .ok () => return true
  | .error (.break 0) => return false
  | .error (.break (n + 1)) => throw (.break n)
  | .error (.continue 0) => return true
  | .error (.continue (n + 1)) => throw (.continue n)
  | .error flow => throw flow

/-- Runs a loop. -/
def looping (act : Run Unit) : Run Unit := do
  modify fun m => { m with loops := m.loops + 1 }
  ending act fun m => { m with loops := m.loops - 1 }

/-- Runs a body for one text after the other. -/
def forTexts (act : String → Run Unit) : List String → Run Unit
  | [] => return
  | text :: rest => do
      if ← inLoop (act text) then forTexts act rest

/-! ### Ends -/

/-- What the variables of a function were outside of it. -/
def withOuter (names : List (String × Option String)) (m : Machine) : Machine :=
  names.foldl (fun m (name, value?) =>
    match value? with
    | some value => m.set name value
    | none => m.unset name) m

/-- Runs the body of a function. -/
def calling (arguments : List String) (body : Run Unit) : Run Unit := do
  let before ← get
  set { before with arguments, depth := before.depth + 1, loops := 0, outer := [] :: before.outer }
  let r ← caught body
  modify fun m =>
    { withOuter (m.outer.headD []) m with
      arguments := before.arguments, depth := before.depth, loops := before.loops
      outer := before.outer }
  match r with
  | .ok () => return
  | .error (.return status) => setStatus status
  | .error flow => throw flow

/-- Runs a script to its end, and then what is to be done at the end. -/
def toEnd (run : String → Run Unit) (act : Run Unit) : Run Unit := do
  let r ← caught act
  let flow : Flow ← match r with
    | .ok () => pure (.exit (← get).status)
    | .error (.given status) => pure (.exit status)
    | .error flow => pure flow
  if flow = .killed 9 then throw flow
  match (← get).traps.lookup "EXIT" with
  | none => throw flow
  | some action => do
      match flow with
      | .exit status => setStatus status
      | _ => pure ()
      modify fun m => { m with traps := [] }
      run action
      throw flow

/-- Ends the shell if the last command has failed and that is not to happen. -/
def stopIfFailed (isTested : Bool) : Run Unit := do
  let m ← get
  if m.status != 0 && m.has "e" && !isTested then throw (.exit m.status)

/-! ### Words of a simple command -/

/-- The words that assign to variables before a command, and the words behind them. -/
def assignments : List Word → List (String × Bool × Word) × List Word
  | [] => ([], [])
  | w :: rest =>
      match w with
      | .plain text false :: parts =>
          match assignment? text with
          | some (name, isAdded, value) =>
              let (others, words) := assignments rest
              ((name, isAdded, if value = "" then parts else .plain value false :: parts) :: others, words)
          | none => ([], w :: rest)
      | _ => ([], w :: rest)

/-- A word as it is shown when commands are. -/
def shown (text : String) : String :=
  let isSafe (c : Char) : Bool := c.isAlphanum || "_-./:=,+@%^".toList.contains c
  if text = "" then "''"
  else if text.toList.all isSafe then text
  else "'" ++ "'\\''".intercalate (text.splitOn "'") ++ "'"

/-- Shows a command before it is run, if that is wanted. -/
def trace (text : String) : Run Unit := do
  if (← get).has "x" then modify (·.write 2 ("+ " ++ text ++ "\n"))

/-- Words that assign, as the arguments of a command that declares variables, are not
split. -/
def declares (name : String) : Bool :=
  ["export", "local", "declare", "typeset", "readonly"].contains name

/-- The texts of the words of a command. -/
def expandCommand (capture : Capture) (ws : List Word) : Run (List String) := do
  match ws with
  | first :: rest =>
      if (first.text?.map declares).getD false then
        let texts ← rest.mapM fun w => do
          match w with
          | .plain text false :: _ =>
              if (assignment? text).isSome then return [← expandText capture w]
              else expand capture [w]
          | _ => expand capture [w]
        return first.text?.getD "" :: texts.flatten
      else expand capture ws
  | [] => return []

/-- Says what is wrong with a script. -/
def complainOf (label : String) (lines : List String) : Run Unit :=
  modify fun m => lines.foldl (fun m line => m.write 2 (m.script ++ ": " ++ label ++ line ++ "\n")) m

/-- Runs something in a copy of the shell, with what is to be done at its end. -/
def inCopy (run : String → Run Unit) (act : Run Unit) : Run Unit :=
  apart (toEnd run do
    modify fun m => { m with traps := m.traps.filter (·.2 = "") }
    act)

/-- A script with a newline at its end. -/
def ended (script : List Char) : List Char :=
  if script.getLast? = some '\n' then script else script ++ ['\n']

/-- The file that a script only reads, if that is all that it does. -/
def readFile? (text : String) : Option Word :=
  match (Reading.start (ended text.toList)).command? with
  | .ok (some (.simple _ [] [⟨[0], .read, w⟩], _)) => some w
  | _ => none

/-! ### Commands -/

mutual

/-- Runs the commands of a text that stands on the line that is run. -/
def runText : Nat → Bool → String → String → Run Unit
  | 0, _, _, _ => throw (.killed 11)
  | fuel + 1, isTested, label, text => do
      turns (fun (r : Reading) => do
        match r.command? with
        | .error lines => do
            complainOf label lines
            setStatus 2
            return none
        | .ok none => return none
        | .ok (some (c, r)) => do
            complainOf "" r.warnings
            perform fuel isTested c
            return some { r with warnings := [] })
        (text.length + 1) { Reading.start (ended text.toList) with line := (← get).line }

/-- What the commands of a text write. -/
def captured : Nat → String → Run String
  | 0, _ => throw (.killed 11)
  | fuel + 1, text => do
      match readFile? text with
      | some w => do
          let path ← expandText (captured fuel) w
          match contentAt (← get).tree path with
          | .ok content => return content
          | .error fault => do
              failing (path ++ ": " ++ faultText fault) 1
              return ""
      | none => outputOf do
          modify fun m => { m with options := m.options.filter (· != "e"), traps := [] }
          toEnd (runText fuel false "exit trap: ") (runText fuel false "command substitution: " text)

/-- Runs a command; `isTested` says that its failure is taken as an answer. -/
def perform : Nat → Bool → Command → Run Unit
  | 0, _, _ => throw (.killed 11)
  | fuel + 1, isTested, c => do
      let capture : Capture := captured fuel
      let exitRun := runText fuel false "exit trap: "
      match c with
      | .nothing => setStatus 0
      | .simple line ws rs => do
          modify fun m => { m with line }
          simple fuel isTested ws rs
          stopIfFailed isTested
      | .condition line ws => do
          modify fun m => { m with line }
          match Question.ofWords ws with
          | none => do
              complain "syntax error in conditional expression"
              throw (.given 2)
          | some q => setStatus (if ← q.answer capture then 0 else 1)
          stopIfFailed isTested
      | .compute line expression => do
          modify fun m => { m with line }
          let n ← compute (← expandText capture expression)
          setStatus (if n = 0 then 1 else 0)
          stopIfFailed isTested
      | .inOrder a b => do
          perform fuel isTested a
          perform fuel isTested b
      | .both a b => do
          perform fuel true a
          if (← get).status = 0 then perform fuel isTested b
      | .either a b => do
          perform fuel true a
          if (← get).status != 0 then perform fuel isTested b
      | .pipeline isNegated parts => do
          match parts with
          | [part] => perform fuel (isTested || isNegated) part
          | _ => do
              let statuses ← pipe fuel (isTested || isNegated) none parts
              if (← get).has "pipefail" then
                setStatus (((statuses.filter (· != 0)).getLast?).getD 0)
          if isNegated then modify fun m => { m with status := if m.status = 0 then 1 else 0 }
          else stopIfFailed isTested
      | .redirected body rs => redirecting capture rs (perform fuel isTested body)
      | .apart body => do
          inCopy exitRun (perform fuel isTested body)
          stopIfFailed isTested
      | .branch test yes no => do
          perform fuel true test
          perform fuel isTested (if (← get).status = 0 then yes else no)
      | .loop onSuccess test body => looping do
          turns (fun last => do
            if !(← inLoop (perform fuel true test)) then return none
            if ((← get).status = 0) != onSuccess then
              setStatus last
              return none
            if ← inLoop (perform fuel isTested body) then return some (← get).status
            else return none) turnLimit 0
      | .forEach name words body => do
          let texts ← match words with
            | some ws => expand capture ws
            | none => pure (← get).arguments
          setStatus 0
          looping (forTexts (fun text => do
            modify (·.set name text)
            perform fuel isTested body) texts)
      | .count line start test step body => do
          let value (expression : Word) : Run Int := do
            modify fun m => { m with line }
            compute (← expandText capture expression)
          let _ ← value start
          setStatus 0
          looping do
            turns (fun last => do
              let text ← expandText capture test
              let goesOn ← if text.trimAscii.toString = "" then pure true
                else pure ((← value test) != 0)
              if !goesOn then
                setStatus last
                return none
              if !(← inLoop (perform fuel isTested body)) then return none
              let status := (← get).status
              let _ ← value step
              return some status) turnLimit 0
      | .choice subject arms => do
          let text ← expandText capture subject
          choose fuel isTested text arms
      | .define name body =>
          modify fun m =>
            { m with functions := (name, body) :: m.functions.filter (·.1 != name), status := 0 }

/-- Runs the commands behind the first pattern that a text fits. -/
def choose : Nat → Bool → String → List (List Word × Command) → Run Unit
  | 0, _, _, _ => throw (.killed 11)
  | _, _, _, [] => setStatus 0
  | fuel + 1, isTested, text, (patterns, body) :: rest => do
      let fits ← patterns.anyM fun w => do
        return Wildcard.fits false (← expandPattern (captured fuel) w) text.toList
      if fits then perform fuel isTested body else choose fuel isTested text rest

/-- Runs commands, each of which reads what the one before it writes, and gives their
statuses. -/
def pipe : Nat → Bool → Option Nat → List Command → Run (List Nat)
  | 0, _, _, _ => throw (.killed 11)
  | _, _, _, [] => return []
  | fuel + 1, isTested, input, c :: rest => do
      let streams := (← get).streams
      match input with
      | some i => modify (·.opened 0 (.input i))
      | none => pure ()
      let act := inCopy (runText fuel false "exit trap: ") (perform fuel isTested c)
      let back (m : Machine) : Machine := { m with streams }
      if rest = [] then
        ending act back
        return [(← get).status]
      else
        let (b, m) := (← get).withBuffer
        set (m.opened 1 (.buffer b))
        ending act back
        let status := (← get).status
        let written := (((← get).buffers[b]?).getD "").toList
        let (i, m) := (← get).withInput written
        set m
        return status :: (← pipe fuel isTested (some i) rest)

/-- Runs a simple command. -/
def simple : Nat → Bool → List Word → List Redirection → Run Unit
  | 0, _, _, _ => throw (.killed 11)
  | fuel + 1, isTested, ws, rs => do
      let capture : Capture := captured fuel
      let (given, ws) := assignments ws
      let buffers := (← get).buffers.size
      let texts ← expandCommand capture ws
      let assign : Run Unit := do
        for (name, isAdded, value) in given do
          let text ← expandText capture value
          trace (name ++ (if isAdded then "+=" else "=") ++ shown text)
          assignTo name isAdded text
      match texts with
      | [] => do
          assign
          if (← get).buffers.size = buffers then setStatus 0
          redirecting capture rs (pure ())
      | "exec" :: words => do
          assign
          trace (" ".intercalate (texts.map shown))
          if ← openAll capture rs then
            if words = [] then setStatus 0
            else
              let name := words.headD ""
              if isProgram name || name.toList.contains '/' then dispatch fuel isTested false words
              else failing ("exec: " ++ name ++ ": not found") 127
              throw (.exit (← get).status)
      | _ => redirecting capture rs do
          let before ← get
          assign
          trace (" ".intercalate (texts.map shown))
          if given = [] then dispatch fuel isTested true texts
          else
            let names := given.map (·.1)
            modify fun m => { m with exported := names ++ m.exported.filter fun n => !names.contains n }
            ending (dispatch fuel isTested true texts) fun m =>
              { withOuter (names.map fun n => (n, before.bindings.lookup n)) m with
                exported := before.exported }

/-- Runs what a command's name stands for; functions count only if `withFunctions`. -/
def dispatch : Nat → Bool → Bool → List String → Run Unit
  | 0, _, _, _ => throw (.killed 11)
  | _, _, _, [] => return
  | fuel + 1, isTested, withFunctions, name :: arguments => do
      let m ← get
      match if withFunctions then m.functions.lookup name else none with
      | some body => calling arguments (perform fuel isTested body)
      | none =>
          let runners : Runners := {
            script := runText fuel isTested
            command := dispatch fuel isTested
            shell := inCopy (runText fuel false "exit trap: ") }
          match builtin? (runText fuel isTested "eval: ") name with
          | some act => act arguments
          | none =>
              match runner? runners name with
              | some act => act arguments
              | none =>
                  match utility? name with
                  | some utility =>
                      carryOut (utility {
                        name := bareName name
                        arguments
                        input := String.ofList (m.input 0)
                        tree := m.tree
                        bindings := (m.exported.filterMap fun n =>
                          (m.bindings.lookup n).map fun v => (n, v)) })
                  | none =>
                      if name.toList.contains '/' then runFile runners name arguments
                      else failing (name ++ ": command not found") 127

end

/-! ### The shell -/

/-- How deep commands may lie in commands. -/
def depthLimit : Nat := 4000

/-- Runs the script that is the input of the shell. -/
def runInput : Run Unit :=
  turns (fun line => do
    let m ← get
    let rest := m.input 0
    match Reading.command? { rest, lineStart := rest, line } with
    | .error lines => do
        set (m.leave 0 [])
        complainOf "" lines
        setStatus 2
        return none
    | .ok none => return none
    | .ok (some (c, r)) => do
        set (m.leave 0 r.rest)
        complainOf "" r.warnings
        match ← caught (perform depthLimit false c) with
        | .error (.given status) => setStatus status
        | .error flow => throw flow
        | .ok () => pure ()
        return some r.line) turnLimit 1

/-- A shell that has started, in a file tree, with variables that all programs see. -/
def Machine.start (bindings : List (String × String)) (script : String) (tree : Tree) : Machine where
  tree
  buffers := #["", ""]
  inputs := #[script.toList]
  streams := [(0, .input 0), (1, .buffer 0), (2, .buffer 1)]
  bindings := ("PWD", seen (Path.text tree.here)) :: bindings
  exported := "PWD" :: bindings.map (·.1)

/-- The shell that runs scripts, with variables that it is started with. It takes no time. -/
def bash (bindings : List (String × String)) : Tool.Shell := fun _ script tree =>
  let (r, m) := (toEnd (runText depthLimit false "exit trap: ") runInput).run
    (.start bindings (seen script) tree)
  let ending : Tool.Ending := match r with
    | .error (.exit status) => .status (status % 256)
    | .error (.killed _) => .signal
    | _ => .status m.status
  let written (i : Nat) : Octets := bytesOf ((m.buffers[i]?).getD "")
  (.ok ⟨written 0, written 1, ending⟩, m.tree)

end Workbench.Shell
