/-
# The searching tool

Searches the project by meaning and explains the hits. The project's default
collection is found or built when the first search comes, and kept from then on.
-/

import Workbench.Tool.Basic
import Workbench.Index.Codebase

namespace Workbench.Tool

open Workbench.Json Workbench.Files Workbench.Index Workbench.Service

/-- The parameters of a search. -/
structure SearchParameters where
  query : String := ""
  k : Nat := 10
  deriving DecidableEq, Repr

/-- How the parameters of a search are read. -/
def SearchParameters.shape : Shape SearchParameters where
  name := "Params"
  blank := {}
  fields := [
    required "query" Decode.text fun p s => { p with query := s },
    optional "k" Decode.size fun p n => { p with k := n }]

/-- What searches change: the tree, the collection that is kept, and the state of the
services. -/
structure SearchState (σ : Type) where
  tree : Tree
  retriever : Option (Retriever σ)
  services : σ

/-- What searches work with. -/
structure Searcher (σ : Type) where
  index : CodebaseIndex σ
  generator : Generator σ
  project : Path
  stamp : Collection.Stamp

variable {σ : Type}

/-- The collection that is kept, or else found or built. -/
def Searcher.prepare (s : Searcher σ) (state : SearchState σ) :
    Except IndexFault (Retriever σ) × SearchState σ :=
  match state.retriever with
  | some retriever => (.ok retriever, state)
  | none =>
      let out := s.index.build s.stamp state.tree (Path.text s.project)
        s.index.settings.defaultCollection state.services
      (out.result, ⟨out.tree, out.result.toOption, out.state⟩)

/-- The explained hits of a search. -/
def Searcher.search (s : Searcher σ) (query : String) (k : Nat) (state : SearchState σ) :
    Except IndexFault (List Explanation) × SearchState σ :=
  match s.prepare state with
  | (.error fault, state) => (.error fault, state)
  | (.ok retriever, state) =>
      let (result, services) :=
        retriever.searchExplained s.generator state.tree query k state.services
      (result, { state with services })

/-- The tool that searches the project. -/
def searching (s : Searcher σ) : Callable (SearchState σ) where
  name := "search_relevant_files"
  description :=
    "Given a query search string (for example, the issue report description, filenames, etc.), search for relevant code snippets of files and functions in the project by embedding similarity. Returns a JSON list of \x7bfile_path, explanation\x7d; definition hits use \x60path:name\x60 as file_path. The project is indexed on first use."
  schema := parametersSchema [
    ("query", described "string" "Search string used to find relevant files and functions"),
    ("k", typed "integer" [
      ("minimum", .ofNat 1),
      ("description", .string "Number of results (default: 10)")])]
    ["query"]
  run v state := withParameters SearchParameters.shape v state fun p state =>
    match s.search p.query p.k state with
    | (.ok explanations, state) => (.done (explanationsText explanations), state)
    | (.error fault, state) => (.failedAs fault.kind fault.message, state)

end Workbench.Tool
