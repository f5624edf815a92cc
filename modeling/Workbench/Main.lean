/-
# The command line

Runs a command in a scene. The first line of the input tells the scene, as JSON; the rest
is the input of the command. What the command did is written as one line of JSON, and the
status is that of the command.
-/

import Workbench.Command.Scene

open Workbench Workbench.Command

/-- Reads what is left of a stream. -/
partial def readRest (stream : IO.FS.Stream) (read : String) : IO String := do
  let line ← stream.getLine
  if line.isEmpty then return read else readRest stream (read ++ line)

/-- Runs the command that the arguments ask for. -/
def main (arguments : List String) : IO UInt32 := do
  let stdin ← IO.getStdin
  match Scene.ofText (← stdin.getLine) with
  | .error message =>
      IO.eprintln message
      return 2
  | .ok scene =>
      let (status, answer) := scene.answer arguments (← readRest stdin "")
      IO.println answer.compact
      return status.toUInt32
