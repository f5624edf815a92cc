/-
# Redirections

Where the streams of a command lead to while it runs.

* `openAll` — opens what redirections name.
* `redirecting` — runs something with redirections, and takes them back.
-/

import Workbench.Shell.Builtin

namespace Workbench.Shell

open Workbench.Text Workbench.Files

/-- Runs something, and changes the shell then however it ended. -/
def ending (act : Run Unit) (after : Machine → Machine) : Run Unit := do
  let r ← caught act
  modify after
  match r with
  | .ok () => return
  | .error flow => throw flow

/-- Opens streams. -/
def openTo (streams : List Nat) (target : Target) : Run Bool := do
  for stream in streams do modify (·.opened stream target)
  return true

/-- Opens streams to read a text. -/
def openText (streams : List Nat) (text : String) : Run Bool := do
  let (i, m) := (← get).withInput text.toList
  set m
  openTo streams (.input i)

/-- Makes streams what another one is. -/
def openCopy (streams : List Nat) (other : Nat) (name : String) : Run Bool := do
  match (← get).target? other with
  | some target => openTo streams target
  | none => do
      failing (name ++ ": Bad file descriptor") 1
      return false

/-- Tells of a file that cannot be opened. -/
def cannotOpen (path : String) (fault : Files.Fault) : Run Bool := do
  failing (path ++ ": " ++ faultText fault) 1
  return false

/-- Opens streams to read or write a file. -/
def openFile (streams : List Nat) (opening : Opening) (path : String) : Run Bool := do
  let m ← get
  match path with
  | "/dev/null" => if opening = .read then openText streams "" else openTo streams .nowhere
  | "/dev/stdin" => openCopy streams 0 path
  | "/dev/stdout" => openCopy streams 1 path
  | "/dev/stderr" => openCopy streams 2 path
  | _ =>
      match opening with
      | .read =>
          match contentAt m.tree path with
          | .ok text => openText streams text
          | .error fault => cannotOpen path fault
      | _ =>
          let old := if opening = .append then
            ((contentAt m.tree path).toOption.map bytesOf).getD [] else []
          match m.tree.write (pathOf path) (.ofOctets old), m.tree.find true (pathOf path) with
          | .ok tree, .ok place => do
              set { m with tree }
              openTo streams (.file (Path.text place.path))
          | .error fault, _ => cannotOpen path fault
          | _, .error fault => cannotOpen path fault

/-- Opens what a redirection names, and tells whether it can be opened. -/
def openOne (capture : Capture) (r : Redirection) : Run Bool := do
  match r.opening with
  | .document => openText r.streams (← expandText capture r.word)
  | .line => openText r.streams ((← expandText capture r.word) ++ "\n")
  | .copy => do
      let text ← expandText capture r.word
      if text = "-" then
        for stream in r.streams do modify (·.closed stream)
        return true
      match text.toNat? with
      | some other => openCopy r.streams other text
      | none => do
          failing (text ++ ": ambiguous redirect") 1
          return false
  | opening => do
      match ← expandWord capture r.word with
      | [path] => openFile r.streams opening path
      | _ => do
          failing (r.word.source ++ ": ambiguous redirect") 1
          return false

/-- Opens what redirections name up to the first that cannot be opened. -/
def openAll (capture : Capture) : List Redirection → Run Bool
  | [] => return true
  | r :: rest => do
      if ← openOne capture r then openAll capture rest else return false

/-- Runs something with redirections, if what they name can be opened. -/
def redirecting (capture : Capture) (redirections : List Redirection) (act : Run Unit) :
    Run Unit := do
  if redirections = [] then act
  else
    let streams := (← get).streams
    ending (do if ← openAll capture redirections then act) fun m => { m with streams }

end Workbench.Shell
