/-
# Indexes of codebases

An index builds collections of a project's sources and finds them again. A
collection that is there is used as it is; one that is not is built beside its
place and moved there only when it is complete, so that a failed build leaves
nothing that could be taken for a collection.

An operation tells what the file tree and the state of the embedder are afterwards,
and how often it went through the project's files.

* `CodebaseIndex.build` — finds or builds a collection.
* `CodebaseIndex.connect` — finds a collection; without one, nothing is ever found.
* `CodebaseIndex.clear` — removes a collection and what is left of its builds.
* `Retriever.search` — the chunks that are most similar to a query.
-/

import Workbench.Collection.Store
import Workbench.Index.Location
import Workbench.Index.Ranking
import Workbench.Text.Chunk

namespace Workbench.Index

open Workbench.Files Workbench.Service Workbench.Collection Workbench.Code Workbench.Config
open Workbench.Vector

/-- An index: where its collections lie, what is indexed, and how. -/
structure CodebaseIndex (σ : Type) where
  runtimeDir : String
  settings : IndexSettings
  embedder : Embedder σ
  grammars : Grammars

/-- A collection to search in; without a store it is empty. -/
structure Retriever (σ : Type) where
  collection : String
  location : String
  store : Option Store
  embedder : Embedder σ

/-- What an operation ends in: its result, the tree and the state afterwards, and how
often it went through the project's files. -/
structure Outcome (σ α : Type) where
  result : Except IndexFault α
  tree : Tree
  state : σ
  walks : Nat

/-- A chunk that has no embedding yet. -/
structure PendingChunk where
  path : String
  name : Option String
  kind : UnitKind
  index : Nat
  offset : Nat
  text : String
  deriving DecidableEq, Repr

/-- The chunk with its embedding. -/
def PendingChunk.stored (c : PendingChunk) (embedding : Embedding) : StoredChunk :=
  ⟨c.path, c.name, c.kind, .ofNat c.index, .ofNat c.offset, c.text, embedding⟩

/-- A list in groups of a size, of which the last may be smaller. The sizes that
configurations ask for are not 0 (`Config.Valid`). -/
def groups {α : Type} (size : Nat) (xs : List α) : List (List α) :=
  match xs with
  | [] => []
  | x :: rest => (x :: rest.take (size - 1)) :: groups size (rest.drop (size - 1))
termination_by xs.length
decreasing_by simp only [List.length_drop, List.length_cons]; omega

/-- The place of a project's directory. -/
def projectRoot (tree : Tree) (project : String) : Except IndexFault Path :=
  match tree.realPath project with
  | .error fault => .error (.access project fault)
  | .ok root =>
      if tree.isDirectory (Path.text root) then .ok root
      else .error (.build (.notADirectory (Path.text root)))

/-- Removes a directory with all that is in it, if it is there. -/
def removeIfThere (tree : Tree) (path : String) : Except IndexFault Tree :=
  match tree.removeDirectory path with
  | .ok tree => .ok tree
  | .error .missing => .ok tree
  | .error fault => .error (.access path fault)

/-- Opens the collection in a directory that is there. -/
def openThere (tree : Tree) (location : String) : Except IndexFault Store :=
  match Store.open? tree location with
  | some store => .ok store
  | none => .error (.build (.noCollection location))

namespace CodebaseIndex

variable {σ : Type}

/-- The languages that are indexed. -/
def languages (ix : CodebaseIndex σ) : Registry :=
  (Registry.builtin ix.grammars).select ix.settings.extensions

/-- Where a collection lies, and the sources if they had to be looked at for that. -/
def locate (ix : CodebaseIndex σ) (tree : Tree) (root : Path) (collection : String) :
    Except IndexFault (String × Option (List Source)) :=
  if ix.settings.contentHashKey then
    let files := sources ix.languages tree root
    match digest tree files with
    | .ok d => .ok (location ix.runtimeDir root collection (some d), some files)
    | .error fault => .error (.build fault)
  else .ok (location ix.runtimeDir root collection none, none)

/-- How often `locate` goes through the project's files. -/
def locateWalks (ix : CodebaseIndex σ) : Nat :=
  if ix.settings.contentHashKey then 1 else 0

/-- Where the collection of a project lies. -/
def persistDir (ix : CodebaseIndex σ) (tree : Tree) (project collection : String) :
    Except IndexFault String := do
  let root ← projectRoot tree project
  return (← ix.locate tree root collection).1

/-! ### Building -/

/-- The chunks of a source. -/
def chunksOf (ix : CodebaseIndex σ) (language : Language) (path text : String) :
    List PendingChunk :=
  (language.units path text).flatMap fun unit =>
    (Text.chunks unit.text ix.settings.chunkSize ix.settings.chunkOverlap).map fun c =>
      ⟨unit.path, unit.name, unit.kind, c.index, c.offset, c.text⟩

/-- Reads a source and chunks it. -/
def chunkSource (ix : CodebaseIndex σ) (tree : Tree) (file : Source) :
    Except IndexFault (List PendingChunk) := do
  let text ← (file.read tree).mapError .build
  match ix.languages.get? file.extension with
  | none => throw (.build (.noGrammar file.extension))
  | some language =>
      match language.fault? file.path text.toList with
      | some fault => throw (.parse fault)
      | none => return ix.chunksOf language file.path text

/-- The chunks of the sources of a batch. -/
def chunkBatch (ix : CodebaseIndex σ) (tree : Tree) (files : List Source) :
    Except IndexFault (List PendingChunk) := do
  return (← files.mapM (ix.chunkSource tree)).flatten

/-- A build under way: the tree, the state of the embedder, and whether the size of the
vectors is noted. -/
structure Progress (σ : Type) where
  tree : Tree
  state : σ
  noted : Bool

/-- Notes the size of the first vector, unless a size is noted already. -/
def noteDims (store : Store) (p : Progress σ) (vectors : List Embedding) :
    Except IndexFault (Progress σ) :=
  match p.noted, vectors with
  | false, first :: _ => do
      return { p with tree := (← store.setDims p.tree first.length), noted := true }
  | _, _ => .ok p

/-- Embeds and stores a group of chunks. -/
def storeGroup (ix : CodebaseIndex σ) (store : Store) (p : Progress σ)
    (chunks : List PendingChunk) : Except IndexFault Unit × Progress σ :=
  match ix.embedder.embed (chunks.map (·.text)) p.state with
  | (.error fault, state) => (.error (.embedding fault), { p with state })
  | (.ok vectors, state) =>
      let p := { p with state }
      if vectors.length ≠ chunks.length then
        (.error (.embedding (.count chunks.length vectors.length)), p)
      else
        match noteDims store p vectors with
        | .error fault => (.error fault, p)
        | .ok p =>
            match store.insert p.tree (List.zipWith PendingChunk.stored chunks vectors) with
            | .error fault => (.error fault, p)
            | .ok tree => (.ok (), { p with tree })

/-- Carries out steps until one fails. -/
def steps {α π : Type} (step : π → α → Except IndexFault Unit × π) :
    List α → π → Except IndexFault Unit × π
  | [], p => (.ok (), p)
  | x :: rest, p =>
      match step p x with
      | (.ok (), p) => steps step rest p
      | (.error fault, p) => (.error fault, p)

/-- Reads, chunks, embeds and stores a batch of sources. -/
def storeBatch (ix : CodebaseIndex σ) (store : Store) (p : Progress σ) (files : List Source) :
    Except IndexFault Unit × Progress σ :=
  match ix.chunkBatch p.tree files with
  | .error fault => (.error fault, p)
  | .ok chunks => steps (ix.storeGroup store) (groups ix.settings.embedBatchSize chunks) p

/-- The description of a collection that is built. -/
def describe (ix : CodebaseIndex σ) (root : Path) (collection : String) (stamp : Stamp) :
    Description :=
  ⟨collection, Project.nameOf root, ix.embedder.model, ix.embedder.dims, stamp.created⟩

/-- Builds a collection in a directory. -/
def buildInto (ix : CodebaseIndex σ) (stamp : Stamp) (directory : String) (root : Path)
    (collection : String) (files : List Source) (tree : Tree) (state : σ) :
    Except IndexFault Unit × Tree × σ :=
  match Store.create tree directory stamp (ix.describe root collection stamp) with
  | (.error fault, tree) => (.error fault, tree, state)
  | (.ok store, tree) =>
      let start : Progress σ := ⟨tree, state, 0 < ix.embedder.dims⟩
      let (result, p) :=
        steps (ix.storeBatch store) (groups ix.settings.fileBatchSize files) start
      (result, p.tree, p.state)

/-- The retriever of a collection that is there, if it was built with the same model. -/
def reuse (ix : CodebaseIndex σ) (tree : Tree) (location collection : String) :
    Except IndexFault (Retriever σ) := do
  let store ← openThere tree location
  match ← store.description tree with
  | none => throw (.build (.noDescription location))
  | some (d, _) =>
      if d.model ≠ ix.embedder.model then
        throw (.embedding (.otherModel collection d.model ix.embedder.model))
      return ⟨collection, location, some store, ix.embedder⟩

/-- Moves a complete collection to its place and opens it there. -/
def install (ix : CodebaseIndex σ) (location collection : String) (tree : Tree) :
    Except IndexFault (Retriever σ) × Tree :=
  match tree.rename (staging location) location with
  | .error fault =>
      (.error (.access location fault),
        ((removeIfThere tree (staging location)).toOption.getD tree))
  | .ok tree =>
      match Store.open? tree location with
      | none => (.error (.build (.vanished location)), tree)
      | some store =>
          match store.counts tree with
          | .error fault => (.error fault, tree)
          | .ok _ => (.ok ⟨collection, location, some store, ix.embedder⟩, tree)

/-- Builds a collection that is not there. -/
def buildNew (ix : CodebaseIndex σ) (stamp : Stamp) (location : String) (root : Path)
    (collection : String) (files : List Source) (tree : Tree) (state : σ) :
    Except IndexFault (Retriever σ) × Tree × σ :=
  match removeIfThere tree (staging location) with
  | .error fault => (.error fault, tree, state)
  | .ok tree =>
      match ix.buildInto stamp (staging location) root collection files tree state with
      | (.error fault, tree, state) =>
          (.error fault, (removeIfThere tree (staging location)).toOption.getD tree, state)
      | (.ok (), tree, state) =>
          let (result, tree) := ix.install location collection tree
          (result, tree, state)

/-- Finds the collection of a project, or builds it. -/
def build (ix : CodebaseIndex σ) (stamp : Stamp) (tree : Tree) (project collection : String)
    (state : σ) : Outcome σ (Retriever σ) :=
  match projectRoot tree project with
  | .error fault => ⟨.error fault, tree, state, 0⟩
  | .ok root =>
      match ix.locate tree root collection with
      | .error fault => ⟨.error fault, tree, state, ix.locateWalks⟩
      | .ok (location, scanned) =>
          if tree.isThere location then
            ⟨ix.reuse tree location collection, tree, state, ix.locateWalks⟩
          else
            let files := scanned.getD (sources ix.languages tree root)
            let (result, tree, state) :=
              ix.buildNew stamp location root collection files tree state
            ⟨result, tree, state, 1⟩

/-! ### Finding and removing -/

/-- Finds the collection of a project; one that is not there has nothing in it. -/
def connect (ix : CodebaseIndex σ) (tree : Tree) (project collection : String) :
    Except IndexFault (Retriever σ) := do
  let location ← ix.persistDir tree project collection
  if tree.isThere location then
    return ⟨collection, location, some (← openThere tree location), ix.embedder⟩
  else
    return ⟨collection, location, none, ix.embedder⟩

/-- Removes directories one after the other until one cannot be removed. -/
def removeAll (paths : List String) (tree : Tree) : Except IndexFault Unit × Tree :=
  match paths with
  | [] => (.ok (), tree)
  | path :: rest =>
      match removeIfThere tree path with
      | .error fault => (.error fault, tree)
      | .ok tree => removeAll rest tree

/-- Removes the collection of a project, of every content and complete or not; whether
there was anything to remove. -/
def clear (ix : CodebaseIndex σ) (tree : Tree) (project collection : String) :
    Except IndexFault Bool × Tree :=
  match projectRoot tree project with
  | .error fault => (.error fault, tree)
  | .ok root =>
      match tree.find true ix.runtimeDir with
      | .ok ⟨place, some (.directory _)⟩ =>
          let names := ((tree.children place).map (·.1)).filter
            fun name => belongsTo name (keyName root collection)
          match removeAll (names.map (Path.below ix.runtimeDir)) tree with
          | (.error fault, tree) => (.error fault, tree)
          | (.ok (), tree) => (.ok (names ≠ []), tree)
      | .ok ⟨_, none⟩ => (.ok false, tree)
      | .ok ⟨_, some _⟩ => (.error (.access ix.runtimeDir .notDirectory), tree)
      | .error .missing => (.ok false, tree)
      | .error fault => (.error (.access ix.runtimeDir fault), tree)

end CodebaseIndex

namespace Retriever

variable {σ : Type}

/-- The `k` chunks that are most similar to a query. -/
def search (r : Retriever σ) (tree : Tree) (query : String) (k : Nat) (state : σ) :
    Except IndexFault (List Hit) × σ :=
  match r.store with
  | none => (.ok [], state)
  | some store =>
      if k = 0 then (.ok [], state)
      else match store.chunks tree with
        | .error fault => (.error fault, state)
        | .ok [] => (.ok [], state)
        | .ok chunks =>
            match r.embedder.embedQuery query state with
            | (.error fault, state) => (.error (.embedding fault), state)
            | (.ok embedding, state) => (.ok (top embedding chunks k), state)

/-- The explained hits of a search. -/
def searchExplained (r : Retriever σ) (generate : Generator σ) (tree : Tree) (query : String)
    (k : Nat) (state : σ) : Except IndexFault (List Explanation) × σ :=
  match r.search tree query k state with
  | (.error fault, state) => (.error fault, state)
  | (.ok hits, state) =>
      let (result, state) := explain generate query k hits state
      (result.mapError .explanation, state)

end Retriever

end Workbench.Index
