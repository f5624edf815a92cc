/-
# Scenes

What a command is run in, as JSON tells it: files by their paths, the directory that the
command is run in, the home directory, variables, and the time. No service can be reached
from there, and no model loaded; definitions are found by scanners.

* `Scene.shape` — how a scene is read.
* `Scene.answer` — what a command line does there, as JSON.
-/

import Workbench.Code.Scanner
import Workbench.Command.Run
import Workbench.Shell.Run
import Workbench.Json.Reader

namespace Workbench.Command

open Workbench.Json Workbench.Files Workbench.Service Workbench.Calendar Workbench.Text

/-- What a command is run in. -/
structure Scene where
  tree : Tree := { entries := [] }
  here : String := "/"
  home : String := "/"
  bindings : List (String × String) := []
  seconds : Nat := 0

namespace Scene

/-! ### Reading -/

/-- The members of an object, each read in the same way. -/
def members {α : Type} (read : Value → Except Json.Fault α) :
    Value → Except Json.Fault (List (String × α))
  | .object fields => fields.mapM fun (name, v) => (read v).map fun x => (name, x)
  | v => .error (.wrongType v "a map")

/-- A tree with a file at a path, in directories that are made for it. -/
def withFile (tree : Tree) (path text : String) : Tree :=
  let directory := "/".intercalate (path.splitOn "/").dropLast
  let tree := (tree.makeDirectoriesTo directory).2
  (tree.write path (.text text)).toOption.getD tree

/-- How a scene is read. -/
def shape : Shape Scene where
  name := "Scene"
  blank := {}
  fields := [
    ⟨"files", false, fun v s => do
      let files ← members Decode.text v
      return { s with tree := files.foldl (fun tree (path, text) => withFile tree path text) s.tree }⟩,
    ⟨"directories", false, fun v s => do
      let paths ← Decode.list Decode.text v
      return { s with tree := paths.foldl (fun tree path => (tree.makeDirectoriesTo path).2) s.tree }⟩,
    ⟨"here", false, fun v s => do return { s with here := ← Decode.text v }⟩,
    ⟨"home", false, fun v s => do return { s with home := ← Decode.text v }⟩,
    ⟨"variables", false, fun v s => do return { s with bindings := ← members Decode.text v }⟩,
    ⟨"seconds", false, fun v s => do return { s with seconds := ← Decode.size v }⟩]

/-- The scene that a text tells. -/
def ofText (text : String) : Except String Scene :=
  match Value.parse text with
  | .error located => .error located.message
  | .ok v => (shape.decode true v).mapError (·.message)

/-! ### Answering -/

/-- No service is reached. -/
def unreachable : Transport Unit := fun request _ =>
  (.error ["error sending request for url (" ++ request.url ++ ")", "client error (Connect)",
    "tcp connect error", "Network is unreachable (os error 101)"], ())

/-- No model can be loaded. -/
def unloadable : ModelLoader Unit := fun _ _ =>
  .error "Failed to retrieve model file"

/-- The setting of the commands that are run in a scene. -/
def setting (s : Scene) : Setting Unit where
  home := s.home
  environment := fun name => s.bindings.lookup name
  send := unreachable
  load := unloadable
  shell := Shell.bash (("HOME", s.home) :: s.bindings.filter (·.1 != "HOME"))
  grammars := .scanned
  stamp := ⟨0, Moment.text ⟨s.seconds, 0⟩⟩
  seconds := s.seconds

/-- What there is to be told of a content. -/
def contentValue : Content → Value
  | .text s => .string s
  | .raw bytes => .ofFields [("hex", .string (Octets.toHex bytes))]
  | .database table => .ofFields [("rows", .ofNat table.rows.length)]

/-- What there is to be told of an entry; directories are told by what is in them. -/
def entryValue? : Entry → Option Value
  | .file _ content => some (contentValue content)
  | .directory _ => none
  | .link target => some (.ofFields [("link", .string target)])

/-- The files of a tree by their paths. -/
def filesValue (tree : Tree) : Value :=
  .ofFields (tree.entries.filterMap fun (path, entry) =>
    (entryValue? entry).map fun v => (Path.text path, v))

/-- Runs a command line in a scene: how it ended, what it wrote, and the files then. -/
def answer (s : Scene) (arguments : List String) (input : String) : Nat × Value :=
  let tree := match s.tree.find true s.here with
    | .ok place => { s.tree with here := place.path }
    | .error _ => s.tree
  let (ended, tree, _) := s.setting.answer arguments input tree ()
  (ended.status, .ofFields [("status", .ofNat ended.status), ("output", .string ended.output),
    ("errors", .string ended.errors), ("files", filesValue tree)])

end Scene

end Workbench.Command
