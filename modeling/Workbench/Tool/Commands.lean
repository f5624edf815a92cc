/-
# The command tool

Runs shell commands, all of a call in one shell and within a limit of time. The answer is
what they wrote, then what they wrote to the error stream, then how the shell ended unless
it ended well.
-/

import Workbench.Tool.Basic
import Workbench.Config.Settings
import Workbench.Files.Tree
import Workbench.Text.Clip

namespace Workbench.Tool

open Workbench.Json Workbench.Files Workbench.Text Workbench.Config

/-- How a shell ended: with a status, or by a signal. -/
inductive Ending where
  | status (code : Nat)
  | signal
  deriving DecidableEq, Repr

/-- What a shell did: what it wrote, and how it ended. -/
structure ShellRun where
  output : Octets
  errors : Octets
  ending : Ending
  deriving DecidableEq, Repr

/-- Why a shell tells nothing of what it did. -/
inductive ShellFault where
  | unstarted (reason : String)
  /-- It could not be written to or waited for. -/
  | broken (reason : String)
  /-- It was not done within the limit of time. -/
  | late
  deriving DecidableEq, Repr

/-- The kind of such a fault. -/
def ShellFault.kind : ShellFault → String
  | unstarted _ => "ShellError"
  | broken _ => "ShellError"
  | late => "TimeoutError"

/-- The wording of such a fault, with the limit in seconds. -/
def ShellFault.message (limit : Nat) : ShellFault → String
  | unstarted reason => "Failed to start bash: " ++ reason
  | broken reason => reason
  | late => "Commands did not finish within " ++ toString limit ++ " seconds"

/-- Runs a script in a file tree, at the place from which the tree is seen, for no more
than so many seconds. What was done to the tree by then stays done. -/
abbrev Shell := Nat → String → Tree → Except ShellFault ShellRun × Tree

/-- A text with a newline at its end, unless it is empty. -/
def closed (text : String) : String :=
  if text.isEmpty || text.endsWith "\n" then text else text ++ "\n"

/-- What is said of how a shell ended. -/
def Ending.note : Ending → Option String
  | status 0 => none
  | status code => some ("[exit code " ++ toString code ++ "]")
  | signal => some "[terminated by signal]"

/-- The answer that tells what a shell did. -/
def ShellRun.text (r : ShellRun) : String :=
  let output := Octets.lenient r.output
  let errors := Octets.lenient r.errors
  let written := if errors.isEmpty then output else closed output ++ "[stderr]\n" ++ errors
  match r.ending.note with
  | none => written
  | some note => closed written ++ note

/-- What is said at the end of an output that was cut. -/
def shellNotice : String :=
  "<response clipped><NOTE>The command output exceeded the response limit. Narrow the command (for example with grep, head, or tail) and run it again.</NOTE>"

/-- The parameters of the command tool. -/
structure ShellParameters where
  commands : List String := []
  timeoutSecs : Option Nat := none
  deriving DecidableEq, Repr

/-- How the parameters of the command tool are read. -/
def ShellParameters.shape : Shape ShellParameters where
  name := "Params"
  blank := {}
  fields := [
    required "commands" (Decode.list Decode.text) fun p s => { p with commands := s },
    optional "timeout_secs" (Decode.optional (Decode.word "u64")) fun p n =>
      { p with timeoutSecs := n }]

/-- The script that runs commands one after the other. -/
def scriptOf (commands : List String) : String :=
  "\n".intercalate commands ++ "\n"

/-- Runs a script at a place, if a shell can be started there. -/
def runAt (shell : Shell) (root : Path) (limit : Nat) (script : String) (tree : Tree) :
    Except ShellFault ShellRun × Tree :=
  match tree.stat (Path.text root) with
  | .error fault => (.error (.unstarted fault.message), tree)
  | .ok (.directory _) =>
      let (ran, after) := shell limit script { tree with here := root }
      (ran, { after with here := tree.here })
  | .ok _ => (.error (.unstarted Files.Fault.notDirectory.message), tree)

/-- The limit of time of a call, in seconds: the one that it asks for, unless that is 0, or
else the one that is configured. -/
def ShellParameters.limit (p : ShellParameters) (limits : ShellSettings) : Nat :=
  (p.timeoutSecs.filter (0 < ·)).getD limits.timeoutSecs

/-- The tool that runs commands at the root of a project. -/
def commanding (shell : Shell) (root : Path) (limits : ShellSettings) : Callable Tree where
  name := "run_shell_cmd"
  description :=
    "Run a list of shell commands in sequential order and return their output. The working directory is the root of the project, and all commands share one bash process, so \x60cd\x60 and exported variables carry over to later commands. Stderr and a non-zero exit status are appended to the output."
  schema := parametersSchema [
    ("commands", typed "array" [
      ("items", typed "string" []),
      ("description", .string "A list of shell commands to be run in sequential order")]),
    ("timeout_secs", typed "integer" [
      ("minimum", .ofNat 1),
      ("description", .string
        "Time limit for all commands together (default from configuration)")])]
    ["commands"]
  run v tree := withParameters ShellParameters.shape v tree fun p tree =>
    if p.commands = [] then
      (.misused "\x60commands\x60 must list at least one command", tree)
    else
      match runAt shell root (p.limit limits) (scriptOf p.commands) tree with
      | (.ok ran, tree) => (.done (clip ran.text limits.maxOutputChars shellNotice), tree)
      | (.error fault, tree) =>
          (.failedAs fault.kind (fault.message (p.limit limits)), tree)

end Workbench.Tool
