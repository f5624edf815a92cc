/-
# Runs, with every step checked

An editor and an index work on one file tree, each on what the other leaves. Whatever is
asked of them, and in whichever order, with the numbers of a configuration that was accepted
no step is out of range: every sum, every difference and every slice on the way is
bounded by the texts that are in memory, and by those numbers.

* `Action` — what is asked of the editor or the index; `Bench` — what it changes.
* `Bench.run`, `Checked.run` — what actions do, and the same with every step checked.
* `accepted_in_range` — **a configuration that is accepted keeps every step in range.**
-/

import Workbench.Proofs.Checked.Editing
import Workbench.Proofs.Checked.Indexing
import Workbench.Proofs.Config.Bounds
import Workbench.Proofs.Index.Sources

namespace Workbench

open Workbench.Files Workbench.Service Workbench.Collection Workbench.Config Workbench.Index

variable {σ : Type}

/-- What is asked of an editor or an index. A search is made with what a retriever holds
besides its embedder, which is that of the index. -/
inductive Action (σ : Type) where
  | edit (request : Editor.Request)
  | build (stamp : Stamp) (directory collection : String)
  | connect (directory collection : String)
  | clear (directory collection : String)
  | search (collection location : String) (store : Option Store) (query : String) (k : Nat)
  | explain (collection location : String) (store : Option Store) (generate : Generator σ)
      (query : String) (k : Nat)

/-- What an action is answered. -/
inductive Reply (σ : Type) where
  | edited (said : Except Editor.Refusal String)
  | built (result : Except IndexFault (Retriever σ)) (walks : Nat)
  | connected (result : Except IndexFault (Retriever σ))
  | cleared (result : Except IndexFault Bool)
  | found (result : Except IndexFault (List Hit))
  | explained (result : Except IndexFault (List Explanation))

/-- What actions change: the file tree, the edits that can be undone, and the state of the
services. -/
structure Bench (σ : Type) where
  desk : Editor.Desk
  services : σ

namespace Bench

/-- The bench with another file tree. -/
def withTree (bench : Bench σ) (tree : Tree) : Bench σ :=
  { bench with desk := { bench.desk with tree } }

/-- What an action does, with an editor and an index. -/
def step (e : Editor) (ix : CodebaseIndex σ) (bench : Bench σ) : Action σ → Reply σ × Bench σ
  | .edit request =>
      let (said, desk) := e.answer bench.desk request
      (.edited said, { bench with desk })
  | .build stamp directory collection =>
      let out := ix.build stamp bench.desk.tree directory collection bench.services
      (.built out.result out.walks, { bench.withTree out.tree with services := out.state })
  | .connect directory collection =>
      (.connected (ix.connect bench.desk.tree directory collection), bench)
  | .clear directory collection =>
      let (result, tree) := ix.clear bench.desk.tree directory collection
      (.cleared result, bench.withTree tree)
  | .search collection location store query k =>
      let (result, services) := Retriever.search ⟨collection, location, store, ix.embedder⟩
        bench.desk.tree query k bench.services
      (.found result, { bench with services })
  | .explain collection location store generate query k =>
      let (result, services) := Retriever.searchExplained
        ⟨collection, location, store, ix.embedder⟩ generate bench.desk.tree query k bench.services
      (.explained result, { bench with services })

/-- What actions do, one after the other. -/
def run (e : Editor) (ix : CodebaseIndex σ) : List (Action σ) → Bench σ → List (Reply σ) × Bench σ
  | [], bench => ([], bench)
  | action :: rest, bench =>
      let (reply, bench) := step e ix bench action
      let (replies, bench) := run e ix rest bench
      (reply :: replies, bench)

end Bench

namespace Checked

/-- What an action does, with an editor and an index whose embedder suits the settings. -/
def step (s : EmbeddingSettings) (e : Editor) (ix : CodebaseIndex σ) (bench : Bench σ) :
    Action σ → Checked (Reply σ × Bench σ)
  | .edit request => do
      let (said, desk) ← answer e bench.desk request
      return (.edited said, { bench with desk })
  | .build stamp directory collection => do
      let out ← build s ix stamp bench.desk.tree directory collection bench.services
      return (.built out.result out.walks, { bench.withTree out.tree with services := out.state })
  | .connect directory collection =>
      .ok (.connected (ix.connect bench.desk.tree directory collection), bench)
  | .clear directory collection =>
      let (result, tree) := ix.clear bench.desk.tree directory collection
      .ok (.cleared result, bench.withTree tree)
  | .search collection location store query k => do
      let (result, services) ← search s ⟨collection, location, store, ix.embedder⟩
        bench.desk.tree query k bench.services
      return (.found result, { bench with services })
  | .explain collection location store generate query k => do
      let (result, services) ← searchExplained s ⟨collection, location, store, ix.embedder⟩ generate
        bench.desk.tree query k bench.services
      return (.explained result, { bench with services })

/-- What actions do, one after the other. -/
def run (s : EmbeddingSettings) (e : Editor) (ix : CodebaseIndex σ) :
    List (Action σ) → Bench σ → Checked (List (Reply σ) × Bench σ)
  | [], bench => .ok ([], bench)
  | action :: rest, bench => do
      let (reply, bench) ← step s e ix bench action
      let (replies, bench) ← run s e ix rest bench
      return (reply :: replies, bench)

section Runs

variable {s : EmbeddingSettings} {e : Editor} {ix : CodebaseIndex σ}
  (hcontext : e.limits.snippetContextLines < 2 ^ 63) (hwork : Workable ix.settings)
  (suits : ix.embedder.Suits s)

include hcontext hwork suits

/-- **One action** is in range, whatever there is on the bench. -/
theorem tracks_step (bench : Bench σ) (action : Action σ) :
    Tracks (step s e ix bench action) (Bench.step e ix bench action) := by
  cases action with
  | edit request => exact (tracks_answer hcontext bench.desk request).bind (.of_eq rfl)
  | build stamp directory collection =>
    exact (tracks_build suits hwork stamp bench.desk.tree directory collection
      bench.services).bind (.of_eq rfl)
  | connect directory collection => exact .of_eq rfl
  | clear directory collection => exact .of_eq rfl
  | search collection location store query k =>
    refine .of_eq ?_
    rw [step, search_eq suits, Attempt.ok_bind]
    rfl
  | explain collection location store generate query k =>
    refine .of_eq ?_
    rw [step, searchExplained_eq suits, Attempt.ok_bind]
    rfl

/-- **One action after the other** is in range. -/
theorem tracks_run (actions : List (Action σ)) (bench : Bench σ) :
    Tracks (run s e ix actions bench) (Bench.run e ix actions bench) := by
  induction actions generalizing bench with
  | nil => exact .of_eq rfl
  | cons action rest ih =>
    refine (tracks_step hcontext hwork suits bench action).bind ?_
    exact (ih (Bench.step e ix bench action).2).bind (.of_eq rfl)

end Runs

/-- **A configuration that is accepted keeps every step in range.** With its limits, its
index settings, any grammars and any embedder that suits it, be it one that it asks for or not,
any actions, one after the other, from any file tree and with any edits to undo, do in checked
words what they do in numbers without bound. Nothing stops them but a text or list of 2⁶³ bytes
or more for which there is no memory. -/
theorem accepted_in_range {home text : String} {c : Config}
    (accepted : Config.parse home text = .ok c) :
    (∀ env send load (embedder : Embedder σ),
      Embedder.ofSettings c.embedding c.runtimeDir env send load = .ok embedder →
        embedder.Suits c.embedding) ∧
    ∀ (embedder : Embedder σ) (grammars : Code.Grammars), embedder.Suits c.embedding →
      ∀ (project : Project) (actions : List (Action σ)) (bench : Bench σ),
        Tracks
          (run c.embedding ⟨project, c.editor⟩ ⟨c.runtimeDir, c.index, embedder, grammars⟩ actions
            bench)
          (Bench.run ⟨project, c.editor⟩ ⟨c.runtimeDir, c.index, embedder, grammars⟩ actions
            bench) := by
  have hbounded := bounded_of_parse accepted
  obtain ⟨-, hfiles, htexts⟩ := (valid_of_parse accepted).index_pos
  have hwork : Workable c.index := ⟨hbounded.index.chunk, hfiles, htexts⟩
  refine ⟨fun _ _ _ _ => Embedder.suits_of_ofSettings, ?_⟩
  intro embedder grammars suits project actions bench
  exact tracks_run hbounded.editor.context hwork suits actions bench

/-- A configuration with the largest numbers that a document can say. -/
def largestText : String :=
  "editor.snippet_context_lines=9223372036854775807\n" ++
  "index.chunk_size=9223372036854775807\n" ++
  "embedding.provider='hashed'"

/-- What is read from it. -/
def largestConfig : Config :=
  { Config.default "/h" with
    editor := { snippetContextLines := 2 ^ 63 - 1 }
    index := { chunkSize := 2 ^ 63 - 1 }
    embedding := { provider := "hashed" } }

/-- A file is edited, its project is indexed, and the edit is undone. -/
def draftActions : List (Action Unit) := [
  .edit (.insert "a" 2 "drie"),
  .build ⟨1, "2026-01-01T00:00:00+00:00"⟩ "/p" "k",
  .edit (.undo "a")]

/-- A configuration that asks for a model. -/
def modelConfig : Config :=
  { Config.default "/h" with embedding := { provider := "fastembed" } }

/-- A model that gives every text the same vector. -/
def sampleModel : LocalModel Unit := fun texts state => (.ok (texts.map fun _ => [.one]), state)

theorem accepted_in_range_largestConfig :
    (Config.parse "/h" largestText = .ok largestConfig ∧
      (Embedder.hashed 512 : Embedder Unit).Suits largestConfig.embedding ∧
      Tracks
        (run largestConfig.embedding ⟨⟨["p"], "p", none⟩, largestConfig.editor⟩
          ⟨largestConfig.runtimeDir, largestConfig.index, Embedder.hashed 512, .plain⟩
          draftActions ⟨Editor.draftDesk, ()⟩)
        (Bench.run ⟨⟨["p"], "p", none⟩, largestConfig.editor⟩
          ⟨largestConfig.runtimeDir, largestConfig.index, Embedder.hashed 512, .plain⟩
          draftActions ⟨Editor.draftDesk, ()⟩)) ∧
    ∃ embedder : Embedder Unit,
      Config.parse "/h" "embedding.provider='fastembed'" = .ok modelConfig ∧
      Embedder.ofSettings modelConfig.embedding modelConfig.runtimeDir (fun _ => none)
        (fun _ state => (.error [], state)) (fun _ _ => .ok sampleModel) = .ok embedder ∧
      Tracks
        (run modelConfig.embedding ⟨⟨["p"], "p", none⟩, modelConfig.editor⟩
          ⟨modelConfig.runtimeDir, modelConfig.index, embedder, .plain⟩ draftActions
          ⟨Editor.draftDesk, ()⟩)
        (Bench.run ⟨⟨["p"], "p", none⟩, modelConfig.editor⟩
          ⟨modelConfig.runtimeDir, modelConfig.index, embedder, .plain⟩ draftActions
          ⟨Editor.draftDesk, ()⟩) := by
  have hlargest : Config.parse "/h" largestText = .ok largestConfig := by decide +kernel
  have hmodel : Config.parse "/h" "embedding.provider='fastembed'" = .ok modelConfig := by
    decide +kernel
  have hashing : (Embedder.hashed 512 : Embedder Unit).Suits largestConfig.embedding :=
    fun _ => rfl
  have hloaded : Embedder.ofSettings modelConfig.embedding modelConfig.runtimeDir (fun _ => none)
      (fun _ state => (.error [], state)) (fun _ _ => .ok sampleModel) =
        .ok (.running "bge-small-en-v1.5" 384 sampleModel) := rfl
  obtain ⟨-, hin⟩ := accepted_in_range hlargest
  obtain ⟨hsuits, hrun⟩ := accepted_in_range hmodel
  exact ⟨⟨hlargest, hashing, hin _ _ hashing _ _ _⟩, _, hmodel, hloaded,
    hrun _ _ (hsuits _ _ _ _ hloaded) _ _ _⟩

end Checked

end Workbench
