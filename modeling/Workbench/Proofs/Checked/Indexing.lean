/-
# Building and searching, with every step checked

An index is built and searched once more, with words that may overflow. A build works off
the files in batches and their chunks in groups, neither of which may be empty; it counts
the batches, and tells how many chunks of a batch are not of whole files. What
is done to the file tree and in the database is done as ever.

* `Checked.build`, `Checked.search` — building and searching, with every step checked.
* `Checked.tracks_build`, `Checked.search_eq` — **no step is out of range** with the settings
  of a configuration and an embedder that suits it.
-/

import Workbench.Proofs.Checked.Chunking
import Workbench.Proofs.Checked.Hashing
import Workbench.Proofs.Index.Storing

namespace Workbench.Checked

open Workbench.Files Workbench.Text Workbench.Code Workbench.Vector Workbench.Service
open Workbench.Collection Workbench.Config Workbench.Index Workbench.Index.CodebaseIndex

variable {α π σ : Type}

/-- A list in groups of a size. -/
def groups (size : Nat) (xs : List α) : Checked (List (List α)) :=
  if size = 0 then .error .group else .ok (Index.groups size xs)

/-- Carries out steps until one fails. -/
def steps (step : π → α → Checked (Except IndexFault Unit × π)) :
    List α → π → Checked (Except IndexFault Unit × π)
  | [], p => .ok (.ok (), p)
  | x :: rest, p => do
      let done ← step p x
      match done with
      | (.ok (), p) => steps step rest p
      | (.error fault, p) => return (.error fault, p)

/-! ### Building -/

/-- The chunks of a source. -/
def chunksOf (ix : CodebaseIndex σ) (language : Language) (path text : String) :
    Checked (List PendingChunk) := do
  let parts ← (language.units path text).mapM fun unit => do
    let cs ← chunks unit.text ix.settings.chunkSize ix.settings.chunkOverlap
    return cs.map fun c =>
      (⟨unit.path, unit.name, unit.kind, c.index, c.offset, c.text⟩ : PendingChunk)
  return parts.flatten

/-- Reads a source and chunks it. -/
def chunkSource (ix : CodebaseIndex σ) (tree : Tree) (file : Source) :
    Checked (Except IndexFault (List PendingChunk)) :=
  match file.read tree with
  | .error fault => .ok (.error (.build fault))
  | .ok text => do
      let text ← hold text
      match ix.languages.get? file.extension with
      | none => return .error (.build (.noGrammar file.extension))
      | some language =>
          match language.fault? file.path text.toList with
          | some fault => return .error (.parse fault)
          | none => return .ok (← chunksOf ix language file.path text)

/-- The chunks of the sources of a batch. -/
def chunkBatch (ix : CodebaseIndex σ) (tree : Tree) :
    List Source → Checked (Except IndexFault (List PendingChunk))
  | [] => .ok (.ok [])
  | file :: rest => do
      let read ← chunkSource ix tree file
      match read with
      | .error fault => return .error fault
      | .ok here =>
          let more ← chunkBatch ix tree rest
          return more.map (here ++ ·)

/-- Embeds and stores a group of chunks. -/
def storeGroup (s : EmbeddingSettings) (ix : CodebaseIndex σ) (store : Store) (p : Progress σ)
    (group : List PendingChunk) : Checked (Except IndexFault Unit × Progress σ) := do
  let embedded ← embed s ix.embedder (group.map (·.text)) p.state
  match embedded with
  | (.error fault, state) => return (.error (.embedding fault), { p with state })
  | (.ok vectors, state) =>
      let p := { p with state }
      if vectors.length ≠ group.length then
        return (.error (.embedding (.count group.length vectors.length)), p)
      else
        match noteDims store p vectors with
        | .error fault => return (.error fault, p)
        | .ok p =>
            match store.insert p.tree (List.zipWith PendingChunk.stored group vectors) with
            | .error fault => return (.error fault, p)
            | .ok tree => return (.ok (), { p with tree })

/-- Reads, chunks, embeds and stores a batch of sources; the chunks of definitions are
counted as those that are not of whole files. -/
def storeBatch (s : EmbeddingSettings) (ix : CodebaseIndex σ) (store : Store) (p : Progress σ)
    (files : List Source) : Checked (Except IndexFault Unit × Progress σ) := do
  let read ← chunkBatch ix p.tree files
  match read with
  | .error fault => return (.error fault, p)
  | .ok pending =>
      let ofFiles := pending.countP (·.kind == .file)
      let _ofDefinitions ← sub pending.length ofFiles
      let parts ← groups ix.settings.embedBatchSize pending
      steps (storeGroup s ix store) parts p

/-- Stores one batch after the other; batches are counted from 1, `done` of them before. -/
def storeBatches (s : EmbeddingSettings) (ix : CodebaseIndex σ) (store : Store) (done : Nat) :
    List (List Source) → Progress σ → Checked (Except IndexFault Unit × Progress σ)
  | [], p => .ok (.ok (), p)
  | files :: rest, p => do
      let stored ← storeBatch s ix store p files
      match stored with
      | (.error fault, p) => return (.error fault, p)
      | (.ok (), p) =>
          let number ← add done 1
          storeBatches s ix store number rest p

/-- Builds a collection in a directory. -/
def buildInto (s : EmbeddingSettings) (ix : CodebaseIndex σ) (stamp : Stamp) (directory : String)
    (root : Path) (collection : String) (files : List Source) (tree : Tree) (state : σ) :
    Checked (Except IndexFault Unit × Tree × σ) :=
  match Store.create tree directory stamp (ix.describe root collection stamp) with
  | (.error fault, tree) => .ok (.error fault, tree, state)
  | (.ok store, tree) => do
      let files ← holdAll files
      let batches ← groups ix.settings.fileBatchSize files
      let (result, p) ← storeBatches s ix store 0 batches ⟨tree, state, 0 < ix.embedder.dims⟩
      return (result, p.tree, p.state)

/-- Builds a collection that is not there. -/
def buildNew (s : EmbeddingSettings) (ix : CodebaseIndex σ) (stamp : Stamp) (location : String)
    (root : Path) (collection : String) (files : List Source) (tree : Tree) (state : σ) :
    Checked (Except IndexFault (Retriever σ) × Tree × σ) :=
  match removeIfThere tree (staging location) with
  | .error fault => .ok (.error fault, tree, state)
  | .ok tree => do
      let built ← buildInto s ix stamp (staging location) root collection files tree state
      match built with
      | (.error fault, tree, state) =>
          return (.error fault, (removeIfThere tree (staging location)).toOption.getD tree, state)
      | (.ok (), tree, state) =>
          let (result, tree) := ix.install location collection tree
          return (result, tree, state)

/-- Finds the collection of a project, or builds it. -/
def build (s : EmbeddingSettings) (ix : CodebaseIndex σ) (stamp : Stamp) (tree : Tree)
    (project collection : String) (state : σ) : Checked (Index.Outcome σ (Retriever σ)) :=
  match projectRoot tree project with
  | .error fault => .ok ⟨.error fault, tree, state, 0⟩
  | .ok root =>
      match ix.locate tree root collection with
      | .error fault => .ok ⟨.error fault, tree, state, ix.locateWalks⟩
      | .ok (location, scanned) =>
          if tree.isThere location then
            .ok ⟨ix.reuse tree location collection, tree, state, ix.locateWalks⟩
          else do
            let files := scanned.getD (sources ix.languages tree root)
            let (result, tree, state) ←
              buildNew s ix stamp location root collection files tree state
            return ⟨result, tree, state, 1⟩

/-! ### Searching -/

/-- The vector of a query. -/
def embedQuery (s : EmbeddingSettings) (e : Embedder σ) (query : String) (state : σ) :
    Checked (Except EmbeddingFault Embedding × σ) := do
  let embedded ← embed s e [query] state
  match embedded with
  | (.ok (v :: _), state) => return (.ok v, state)
  | (.ok [], state) => return (.error .empty, state)
  | (.error fault, state) => return (.error fault, state)

/-- The `k` chunks that are most similar to a query. -/
def search (s : EmbeddingSettings) (r : Retriever σ) (tree : Tree) (query : String) (k : Nat)
    (state : σ) : Checked (Except IndexFault (List Hit) × σ) :=
  match r.store with
  | none => .ok (.ok [], state)
  | some store =>
      if k = 0 then .ok (.ok [], state)
      else match store.chunks tree with
        | .error fault => .ok (.error fault, state)
        | .ok [] => .ok (.ok [], state)
        | .ok chunks => do
            let embedded ← embedQuery s r.embedder query state
            match embedded with
            | (.error fault, state) => return (.error (.embedding fault), state)
            | (.ok embedding, state) => return (.ok (top embedding chunks k), state)

/-- The explained hits of a search. -/
def searchExplained (s : EmbeddingSettings) (r : Retriever σ) (generate : Generator σ)
    (tree : Tree) (query : String) (k : Nat) (state : σ) :
    Checked (Except IndexFault (List Explanation) × σ) := do
  let found ← search s r tree query k state
  match found with
  | (.error fault, state) => return (.error fault, state)
  | (.ok hits, state) =>
      let (result, state) := explain generate query k hits state
      return (result.mapError .explanation, state)

/-! ### Every step is in range -/

/-- There are no more groups than items. -/
theorem length_groups_le (size : Nat) (xs : List α) :
    (Index.groups size xs).length ≤ xs.length := by
  induction xs using Index.groups.induct size with
  | case1 => simp [Index.groups]
  | case2 x rest ih =>
    rw [Index.groups, List.length_cons, List.length_cons]
    rw [List.length_drop] at ih
    omega

theorem groups_eq {size : Nat} (hsize : 0 < size) (xs : List α) :
    groups size xs = .ok (Index.groups size xs) :=
  if_neg (Nat.ne_of_gt hsize)

/-- **One step after the other** gives what it should when every step does. -/
theorem tracks_steps {step : π → α → Checked (Except IndexFault Unit × π)}
    {plain : π → α → Except IndexFault Unit × π} (hstep : ∀ p x, Tracks (step p x) (plain p x))
    (xs : List α) (p : π) : Tracks (steps step xs p) (CodebaseIndex.steps plain xs p) := by
  induction xs generalizing p with
  | nil => exact .of_eq rfl
  | cons x rest ih =>
    refine (hstep p x).bind ?_
    rw [CodebaseIndex.steps]
    cases plain p x with
    | mk result p =>
      cases result with
      | error fault => exact .of_eq rfl
      | ok done => exact ih p

/-- No unit of a source is longer than the source. -/
theorem unit_le_of_mem {language : Language} {path text : String} {unit : CodeUnit}
    (h : unit ∈ language.units path text) : unit.text.utf8ByteSize ≤ text.utf8ByteSize := by
  rcases List.mem_cons.mp h with rfl | h
  · exact Nat.le_refl _
  · obtain ⟨construct, -, hconstruct⟩ := List.mem_filterMap.mp h
    unfold CodeUnit.ofConstruct? at hconstruct
    simp only at hconstruct
    split at hconstruct
    · cases hconstruct
    · rw [← Option.some.inj hconstruct, byteLength_ofList, ← byteLength_toList]
      exact byteLength_le_of_isInfix
        ((List.take_prefix _ _).isInfix.trans (List.drop_suffix _ _).isInfix)

/-- Settings with which sources can be cut and worked off: a signed word holds the size of a
chunk, and neither batches of files nor groups of texts are empty. -/
structure Workable (s : IndexSettings) : Prop where
  chunk : s.chunkSize < 2 ^ 63
  files : 0 < s.fileBatchSize
  texts : 0 < s.embedBatchSize

section Builds

variable {s : EmbeddingSettings} {ix : CodebaseIndex σ}

theorem chunksOf_eq (hwork : Workable ix.settings) (language : Language) (path : String)
    {text : String} (fits : text.utf8ByteSize < 2 ^ 63) :
    chunksOf ix language path text = .ok (ix.chunksOf language path text) := by
  rw [chunksOf, CodebaseIndex.chunksOf, List.flatMap]
  rw [Attempt.mapM_eq_ok_iff.mpr]
  · rfl
  · rw [List.map_map]
    refine List.map_congr_left fun unit mem => ?_
    rw [chunks_eq (Nat.lt_of_le_of_lt (unit_le_of_mem mem) fits) hwork.chunk]
    rfl

theorem tracks_chunkSource (hwork : Workable ix.settings) (tree : Tree) (file : Source) :
    Tracks (chunkSource ix tree file) (ix.chunkSource tree file) := by
  rw [chunkSource, CodebaseIndex.chunkSource]
  cases file.read tree with
  | error fault => exact .of_eq rfl
  | ok text =>
    refine Tracks.hold_bind fun fits => ?_
    rw [Attempt.mapError_ok, Attempt.ok_bind]
    cases ix.languages.get? file.extension with
    | none => exact .of_eq rfl
    | some language =>
      simp only
      cases language.fault? file.path text.toList with
      | some fault => exact .of_eq rfl
      | none =>
        simp only
        rw [chunksOf_eq hwork language file.path fits]
        exact .of_eq rfl

theorem tracks_chunkBatch (hwork : Workable ix.settings) (tree : Tree) (files : List Source) :
    Tracks (chunkBatch ix tree files) (ix.chunkBatch tree files) := by
  induction files with
  | nil => exact .of_eq rfl
  | cons file rest ih =>
    rw [chunkBatch, chunkBatch_cons]
    refine (tracks_chunkSource hwork tree file).bind ?_
    cases ix.chunkSource tree file with
    | error fault => exact .of_eq rfl
    | ok here =>
      refine ih.bind (.of_eq ?_)
      cases ix.chunkBatch tree rest <;> rfl

variable (suits : ix.embedder.Suits s)

include suits

theorem storeGroup_eq (store : Store) (p : Progress σ) (group : List PendingChunk) :
    storeGroup s ix store p group = .ok (ix.storeGroup store p group) := by
  rw [storeGroup, CodebaseIndex.storeGroup, embed_eq suits, Attempt.ok_bind]
  cases ix.embedder.embed (group.map (·.text)) p.state with
  | mk result state =>
    cases result with
    | error fault => rfl
    | ok vectors =>
      simp only
      split
      · rfl
      · cases noteDims store { p with state } vectors with
        | error fault => rfl
        | ok p =>
          simp only
          cases store.insert p.tree (List.zipWith PendingChunk.stored group vectors) <;> rfl

theorem tracks_storeBatch (hwork : Workable ix.settings) (store : Store) (p : Progress σ)
    (files : List Source) :
    Tracks (storeBatch s ix store p files) (ix.storeBatch store p files) := by
  rw [CodebaseIndex.storeBatch]
  refine (tracks_chunkBatch hwork p.tree files).bind ?_
  cases ix.chunkBatch p.tree files with
  | error fault => exact .of_eq rfl
  | ok pending =>
    simp only
    rw [sub_eq List.countP_le_length, Attempt.ok_bind, groups_eq hwork.texts, Attempt.ok_bind]
    exact tracks_steps (fun p group => .of_eq (storeGroup_eq suits store p group)) _ p

theorem tracks_storeBatches (hwork : Workable ix.settings) (store : Store) {done : Nat}
    {batches : List (List Source)} (hcount : done + batches.length < 2 ^ 64) (p : Progress σ) :
    Tracks (storeBatches s ix store done batches p)
      (CodebaseIndex.steps (ix.storeBatch store) batches p) := by
  induction batches generalizing done p with
  | nil => exact .of_eq rfl
  | cons files rest ih =>
    rw [List.length_cons] at hcount
    refine (tracks_storeBatch suits hwork store p files).bind ?_
    rw [CodebaseIndex.steps]
    cases ix.storeBatch store p files with
    | mk result p =>
      cases result with
      | error fault => exact .of_eq rfl
      | ok stored =>
        simp only
        rw [add_eq (by omega), Attempt.ok_bind]
        exact ih (by omega) p

theorem tracks_buildInto (hwork : Workable ix.settings) (stamp : Stamp) (directory : String)
    (root : Path) (collection : String) (files : List Source) (tree : Tree) (state : σ) :
    Tracks (buildInto s ix stamp directory root collection files tree state)
      (ix.buildInto stamp directory root collection files tree state) := by
  rw [buildInto, CodebaseIndex.buildInto]
  cases Store.create tree directory stamp (ix.describe root collection stamp) with
  | mk result tree =>
    cases result with
    | error fault => exact .of_eq rfl
    | ok store =>
      refine Tracks.holdAll_bind fun hfiles => ?_
      have hcount := length_groups_le ix.settings.fileBatchSize files
      simp only
      rw [groups_eq hwork.files, Attempt.ok_bind]
      exact (tracks_storeBatches suits hwork store (by omega) _).bind (.of_eq rfl)

theorem tracks_buildNew (hwork : Workable ix.settings) (stamp : Stamp) (location : String)
    (root : Path) (collection : String) (files : List Source) (tree : Tree) (state : σ) :
    Tracks (buildNew s ix stamp location root collection files tree state)
      (ix.buildNew stamp location root collection files tree state) := by
  rw [buildNew, CodebaseIndex.buildNew]
  cases removeIfThere tree (staging location) with
  | error fault => exact .of_eq rfl
  | ok tree =>
    simp only
    refine (tracks_buildInto suits hwork stamp (staging location) root collection files tree
      state).bind ?_
    cases ix.buildInto stamp (staging location) root collection files tree state with
    | mk result after =>
      cases result with
      | error fault => exact .of_eq rfl
      | ok built => exact .of_eq rfl

/-- **No step of a build is out of range**, with sizes that a configuration may have. -/
theorem tracks_build (hwork : Workable ix.settings) (stamp : Stamp) (tree : Tree)
    (project collection : String) (state : σ) :
    Tracks (build s ix stamp tree project collection state)
      (ix.build stamp tree project collection state) := by
  rw [build, CodebaseIndex.build]
  cases projectRoot tree project with
  | error fault => exact .of_eq rfl
  | ok root =>
    simp only
    cases ix.locate tree root collection with
    | error fault => exact .of_eq rfl
    | ok found =>
      obtain ⟨location, scanned⟩ := found
      simp only
      split
      · exact .of_eq rfl
      · exact (tracks_buildNew suits hwork stamp location root collection _ tree state).bind
          (.of_eq rfl)

theorem embedQuery_eq (query : String) (state : σ) :
    embedQuery s ix.embedder query state = .ok (ix.embedder.embedQuery query state) := by
  rw [embedQuery, Embedder.embedQuery, embed_eq suits, Attempt.ok_bind]
  cases ix.embedder.embed [query] state with
  | mk result state =>
    cases result with
    | error fault => rfl
    | ok vectors => cases vectors <;> rfl

/-- **No step of a search is out of range.** -/
theorem search_eq (collection location : String) (store : Option Store) (tree : Tree)
    (query : String) (k : Nat) (state : σ) :
    search s ⟨collection, location, store, ix.embedder⟩ tree query k state =
      .ok (Retriever.search ⟨collection, location, store, ix.embedder⟩ tree query k state) := by
  rw [search, Retriever.search]
  cases store with
  | none => rfl
  | some store =>
    simp only
    split
    · rfl
    · cases store.chunks tree with
      | error fault => rfl
      | ok chunks =>
        cases chunks with
        | nil => rfl
        | cons chunk chunks =>
          simp only
          rw [embedQuery_eq suits, Attempt.ok_bind]
          cases ix.embedder.embedQuery query state with
          | mk result state => cases result <;> rfl

theorem searchExplained_eq (collection location : String) (store : Option Store)
    (generate : Generator σ) (tree : Tree) (query : String) (k : Nat) (state : σ) :
    searchExplained s ⟨collection, location, store, ix.embedder⟩ generate tree query k state =
      .ok (Retriever.searchExplained ⟨collection, location, store, ix.embedder⟩ generate tree query
        k state) := by
  rw [searchExplained, search_eq suits, Attempt.ok_bind, Retriever.searchExplained]
  cases Retriever.search ⟨collection, location, store, ix.embedder⟩ tree query k state with
  | mk result state => cases result <;> rfl

end Builds

end Workbench.Checked
