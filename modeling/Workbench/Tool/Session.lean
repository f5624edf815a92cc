/-
# Sessions

A session holds the tools for one project: editing, listing, searching and shell
commands. They share the file tree; the edits that can be undone, and the collection
that searches use, live as long as the session.

* `Session.registry` — the tools.
* `Session.execute` — calls a tool.
* `Session.line`, `Session.lines` — calls written one to a line, each answered by a line.
-/

import Workbench.Tool.Call
import Workbench.Tool.Commands
import Workbench.Tool.Editing
import Workbench.Tool.Registry
import Workbench.Tool.Searching
import Workbench.Config.Basic
import Workbench.Text.Letters

namespace Workbench.Tool

open Workbench.Json Workbench.Files Workbench.Index Workbench.Service

/-- What a session works with. -/
structure Session (σ : Type) where
  project : Project
  config : Config
  embedder : Embedder σ
  generator : Generator σ
  shell : Shell
  grammars : Code.Grammars
  /-- What tells the collection that the session may build from others. -/
  stamp : Collection.Stamp

/-- What the calls of a session change. -/
structure SessionState (σ : Type) where
  tree : Tree
  history : Editor.History Path
  retriever : Option (Retriever σ)
  services : σ

namespace Session

variable {σ : Type}

/-- The state of a session in which nothing has been called yet. -/
def start (tree : Tree) (services : σ) : SessionState σ :=
  ⟨tree, Editor.History.empty, none, services⟩

/-- The editor of the session. -/
def editor (s : Session σ) : Editor :=
  ⟨s.project, s.config.editor⟩

/-- The index of the session. -/
def index (s : Session σ) : CodebaseIndex σ :=
  ⟨s.config.runtimeDir, s.config.index, s.embedder, s.grammars⟩

/-- A tool of the editor as a tool of the session. -/
def onDesk (tool : Callable Editor.Desk) : Callable (SessionState σ) :=
  tool.lift (fun s => ⟨s.tree, s.history⟩)
    fun d s => { s with tree := d.tree, history := d.history }

/-- A tool of the index as a tool of the session. -/
def onSearch (tool : Callable (SearchState σ)) : Callable (SessionState σ) :=
  tool.lift (fun s => ⟨s.tree, s.retriever, s.services⟩)
    fun r s => { s with tree := r.tree, retriever := r.retriever, services := r.services }

/-- A tool of the file tree as a tool of the session. -/
def onTree (tool : Callable Tree) : Callable (SessionState σ) :=
  tool.lift SessionState.tree fun tree s => { s with tree }

/-- The tools of the session. -/
def registry (s : Session σ) : Registry (SessionState σ) :=
  (((Registry.empty.register (onDesk (editing s.editor))).register
    (onDesk (listing s.editor))).register
    (onSearch (searching ⟨s.index, s.generator, s.project.root, s.stamp⟩))).register
    (onTree (commanding s.shell s.project.root s.config.shell))

/-- Calls a tool. -/
def execute (s : Session σ) (tool : String) (parameters : Value) (state : SessionState σ) :
    Result × SessionState σ :=
  s.registry.execute tool parameters state

/-- The result of a written call. -/
def result (s : Session σ) (line : String) (state : SessionState σ) : Result × SessionState σ :=
  match Call.parse line with
  | .ok call => s.execute call.tool call.parameters state
  | .error e => (.misused ("Invalid tool call: " ++ e.message), state)

/-- The line that answers a line; blank lines are not answered. -/
def line (s : Session σ) (line : String) (state : SessionState σ) :
    Option String × SessionState σ :=
  if (Text.trim line).isEmpty then (none, state)
  else
    let (result, state) := s.result line state
    (some result.json.compact, state)

/-- The lines that answer lines. -/
def lines (s : Session σ) : List String → SessionState σ → List String × SessionState σ
  | [], state => ([], state)
  | l :: rest, state =>
      let (answer, state) := s.line l state
      let (answers, state) := s.lines rest state
      (answer.toList ++ answers, state)

end Session

end Workbench.Tool
