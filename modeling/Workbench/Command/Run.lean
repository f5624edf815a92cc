/-
# Running commands

A command works on a file tree, seen from the directory in which it is run. It ends with
a status, with what it wrote, and with the tree then. The configuration is read first,
then the project is opened; only then is the command looked at.

* `Setting.run` — runs what a command line asks for.
* `Setting.answer` — runs a command line.
-/

import Workbench.Command.Invocation
import Workbench.Config.Loading
import Workbench.Project.Opening
import Workbench.Project.Patch
import Workbench.Tool.Session

namespace Workbench.Command

open Workbench.Json Workbench.Files Workbench.Service Workbench.Index Workbench.Tool

/-- What a command ends with: a status, and what it wrote to its two streams. -/
structure Ended where
  status : Nat
  output : String
  errors : String
  deriving DecidableEq, Repr

/-- The command did what it was to do. -/
def Ended.well (output : String) : Ended :=
  ⟨0, output, ""⟩

/-- The command failed. -/
def Ended.failed (chain : Chain) : Ended :=
  ⟨1, "", "Error: " ++ chain.text ++ "\n"⟩

/-- The command ends with the result of a tool. -/
def Ended.ofResult (r : Result) : Ended :=
  if r.ok then .well (if r.output.endsWith "\n" then r.output else r.output ++ "\n")
  else ⟨1, "", r.error.getD "" ++ "\n"⟩

/-- What a command is given by its surroundings. -/
structure Setting (σ : Type) where
  home : String
  environment : Environment
  send : Transport σ
  /-- Where models come from that run without a service. -/
  load : ModelLoader σ
  shell : Shell
  grammars : Code.Grammars
  stamp : Collection.Stamp
  /-- The time, in seconds. -/
  seconds : Nat

/-- Why an index fails, with the reasons. -/
def faultChain : IndexFault → Chain
  | .access path fault => [(IndexFault.access path fault).message, fault.message]
  | .storage fault => [(IndexFault.storage fault).message, fault.message]
  | fault => [fault.message]

/-- The lines of an input; each but the last may end in a carriage return as well. -/
def inputLines (input : String) : List String :=
  let parts := input.toList.splitOn '\n'
  let ended := parts.dropLast.map fun s => if s.getLast? = some '\r' then s.dropLast else s
  let last := parts.getLast?.getD []
  (ended ++ if last = [] then [] else [last]).map String.ofList

namespace Setting

variable {σ : Type}

/-- What of a command has been done: how it ended, the tree, and the services. -/
abbrev Done (σ : Type) := Ended × Tree × σ

/-- Puts a request to the editor of a project. -/
def edit (project : Project) (config : Config) (request : Editor.Request) (tree : Tree)
    (state : σ) : Done σ :=
  let (result, desk) := ask ⟨project, config.editor⟩ request ⟨tree, Editor.History.empty⟩
  (.ofResult result, desk.tree, state)

/-- The embedder that a configuration asks for. -/
def embedder (s : Setting σ) (config : Config) : Except Chain (Embedder σ) :=
  (Embedder.ofSettings config.embedding config.runtimeDir s.environment s.send s.load).mapError
    fun fault => faultChain (.embedding fault)

/-- Builds or removes a collection. -/
def index (s : Setting σ) (project : Project) (config : Config) (embedder : Embedder σ)
    (collection : String) (isCleared : Bool) (tree : Tree) (state : σ) : Done σ :=
  let ix : CodebaseIndex σ := ⟨config.runtimeDir, config.index, embedder, s.grammars⟩
  let root := Path.text project.root
  if isCleared then
    match ix.clear tree root collection with
    | (.error fault, tree) => (.failed (faultChain fault), tree, state)
    | (.ok true, tree) => (.well ("Cleared collection " ++ collection ++ "\n"), tree, state)
    | (.ok false, tree) => (.well ("No collection " ++ collection ++ " to clear\n"), tree, state)
  else
    let out := ix.build s.stamp tree root collection state
    match out.result with
    | .error fault => (.failed (faultChain fault), out.tree, out.state)
    | .ok r =>
        (.well ("Collection " ++ r.collection ++ " ready at " ++ r.location ++ "\n"),
          out.tree, out.state)

/-- Searches a collection, which is built if it is not there. -/
def search (s : Setting σ) (project : Project) (config : Config) (embedder : Embedder σ)
    (generate : Generator σ) (query : String) (count : Nat) (collection : String) (tree : Tree)
    (state : σ) : Done σ :=
  let ix : CodebaseIndex σ := ⟨config.runtimeDir, config.index, embedder, s.grammars⟩
  let out := ix.build s.stamp tree (Path.text project.root) collection state
  match out.result with
  | .error fault => (.failed (faultChain fault), out.tree, out.state)
  | .ok r =>
      match r.searchExplained generate out.tree query count out.state with
      | (.error fault, state) => (.failed (faultChain fault), out.tree, state)
      | (.ok found, state) => (.well (explanationsText found ++ "\n"), out.tree, state)

/-- Tells what has been changed, and may save it. -/
def diff (s : Setting σ) (project : Project) (config : Config) (isSaved : Bool) (tree : Tree)
    (state : σ) : Done σ :=
  if isSaved then
    match project.savePatch tree config.patchDir s.seconds with
    | (.error fault, tree) => (.failed fault.chain, tree, state)
    | (.ok (path, patch), tree) => (⟨0, patch, "Saved patch to " ++ path ++ "\n"⟩, tree, state)
  else
    match project.patch tree with
    | .error fault => (.failed fault.chain, tree, state)
    | .ok patch => (.well patch, tree, state)

/-- The session of a project. -/
def session (s : Setting σ) (project : Project) (config : Config) (embedder : Embedder σ) :
    Session σ :=
  ⟨project, config, embedder, Generation.lazyClient config.generation s.environment s.send,
    s.shell, s.grammars, s.stamp⟩

/-- Answers the calls of an input, each by a line. -/
def serve (session : Session σ) (input : String) (state : SessionState σ) :
    Ended × SessionState σ :=
  let (answers, after) := session.lines (inputLines input) state
  (.well (String.join (answers.map (· ++ "\n"))), after)

/-- Does what a command is to do in a project. -/
def act (s : Setting σ) (project : Project) (config : Config) (input : String) (tree : Tree)
    (state : σ) : Action → Done σ
  | .view path range => edit project config (.view path range) tree state
  | .tree directory depth =>
      edit project config (.viewDirectory (directory.getD "./") depth) tree state
  | .index collection isCleared =>
      match s.embedder config with
      | .error chain => (.failed chain, tree, state)
      | .ok embedder =>
          s.index project config embedder (collection.getD config.index.defaultCollection)
            isCleared tree state
  | .search query count collection =>
      match s.embedder config with
      | .error chain => (.failed chain, tree, state)
      | .ok embedder =>
          match Generation.client config.generation s.environment s.send with
          | .error chain => (.failed chain, tree, state)
          | .ok generate =>
              s.search project config embedder generate query count
                (collection.getD config.index.defaultCollection) tree state
  | .diff isSaved => s.diff project config isSaved tree state
  | .tools =>
      let tools := (s.session project config (Embedder.hashed config.embedding.dims)).registry
      (.well (tools.definitions.pretty ++ "\n"), tree, state)
  | .session =>
      match s.embedder config with
      | .error chain => (.failed chain, tree, state)
      | .ok embedder =>
          let (ended, after) :=
            serve (s.session project config embedder) input (Session.start tree state)
          (ended, after.tree, after.services)

/-- Runs what a command line asks for. -/
def run (s : Setting σ) (invocation : Invocation) (input : String) (tree : Tree) (state : σ) :
    Done σ :=
  match Config.loadOrDefault s.home tree invocation.config with
  | .error fault => (.failed fault.chain, tree, state)
  | .ok config =>
      match Project.opened tree invocation.project with
      | .error refusal => (.failed refusal.chain, tree, state)
      | .ok project => s.act project config input tree state invocation.action

/-- The status of a command line that is no use of the program. -/
def misused : Ended :=
  ⟨2, "", "Usage: " ++ programName ++ " [OPTIONS] <COMMAND>\n"⟩

/-- Runs a command line. -/
def answer (s : Setting σ) (arguments : List String) (input : String) (tree : Tree) (state : σ) :
    Done σ :=
  match Invocation.ofArguments arguments with
  | .ok invocation => s.run invocation input tree state
  | .error (.told text) => (.well text, tree, state)
  | .error .misuse => (misused, tree, state)

end Setting

end Workbench.Command
