/-
# Builds that succeed

A build that succeeds has read every source, and has had the embedder embed every chunk of
every source, in their order: nothing is taken from anywhere else.

* `CodebaseIndex.buildInto_done` — what a build has done when it succeeds.
* `CodebaseIndex.recorded` — the index whose embedder notes the texts that it is asked for.
* `CodebaseIndex.embedded_buildNew` — **everything is embedded.**
-/

import Workbench.Proofs.Files.Remains
import Workbench.Proofs.Index.Ending
import Workbench.Proofs.Index.Sources

namespace Workbench.Index.CodebaseIndex

open Workbench.Files Workbench.Files.Tree Workbench.Collection Workbench.Collection.Store
  Workbench.Service

variable {σ : Type} {ix : CodebaseIndex σ} {tree ready other : Tree} {directory location : String}
  {collection : String} {files : List Source} {chunks : List PendingChunk} {s : Source}

/-! ### Batches -/

theorem chunkBatch_cons_eq_ok_iff :
    ix.chunkBatch tree (s :: files) = .ok chunks ↔ ∃ own more, ix.chunkSource tree s = .ok own ∧
      ix.chunkBatch tree files = .ok more ∧ chunks = own ++ more := by
  simp only [chunkBatch_cons, Attempt.bind_eq_ok_iff, Attempt.pure_eq, Except.ok.injEq]
  constructor
  · rintro ⟨own, hown, more, hmore, rfl⟩
    exact ⟨own, more, hown, hmore, rfl⟩
  · rintro ⟨own, more, hown, hmore, rfl⟩
    exact ⟨own, hown, more, hmore, rfl⟩

/-- The chunks of two batches are those of both together. -/
theorem chunkBatch_append {first second : List Source} {more : List PendingChunk}
    (h : ix.chunkBatch tree first = .ok chunks) (hmore : ix.chunkBatch tree second = .ok more) :
    ix.chunkBatch tree (first ++ second) = .ok (chunks ++ more) := by
  induction first generalizing chunks with
  | nil =>
      obtain rfl : [] = chunks := Except.ok.inj h
      exact hmore
  | cons s rest ih =>
      obtain ⟨own, others, hown, hothers, rfl⟩ := chunkBatch_cons_eq_ok_iff.mp h
      exact chunkBatch_cons_eq_ok_iff.mpr
        ⟨own, others ++ more, hown, ih hothers, List.append_assoc ..⟩

theorem exists_read_of_chunkBatch (h : ix.chunkBatch tree files = .ok chunks) (hs : s ∈ files) :
    ∃ text, s.read tree = .ok text := by
  induction files generalizing chunks with
  | nil => simp at hs
  | cons first rest ih =>
      obtain ⟨own, _, hown, hmore, -⟩ := chunkBatch_cons_eq_ok_iff.mp h
      rcases List.mem_cons.mp hs with rfl | hs
      · obtain ⟨text, _, htext, -⟩ := chunkSource_eq_ok_iff.mp hown
        exact ⟨text, htext⟩
      · exact ih hmore hs

/-- Where sources are read as in another tree, they have the chunks that they have there. -/
theorem chunkBatch_of_read (hread : ∀ s ∈ files, ∀ text, s.read tree = .ok text →
    s.read other = .ok text) (h : ix.chunkBatch tree files = .ok chunks) :
    ix.chunkBatch other files = .ok chunks := by
  induction files generalizing chunks with
  | nil => exact h
  | cons s rest ih =>
      obtain ⟨own, more, hown, hmore, rfl⟩ := chunkBatch_cons_eq_ok_iff.mp h
      obtain ⟨text, language, htext, hgrammar⟩ := chunkSource_eq_ok_iff.mp hown
      have hother : ix.chunkSource other s = .ok own :=
        chunkSource_eq_ok_iff.mpr ⟨text, language, hread s (.head _) text htext, hgrammar⟩
      exact chunkBatch_cons_eq_ok_iff.mpr
        ⟨own, more, hother, ih (fun s mem => hread s (.tail _ mem)) hmore, rfl⟩

/-- What is still read of a source was in it before. -/
theorem read_of_remains {languages : Code.Registry} {root : Path} {mode : Nat} {text : String}
    (hwf : tree.WellFormed)
    (hfind : tree.find true (Path.text root) = .ok ⟨root, some (.directory mode)⟩)
    (hs : s ∈ sources languages tree root) (hremains : tree.Remains other)
    (hread : s.read other = .ok text) : s.read tree = .ok text := by
  obtain ⟨names, _, _, hentry, -, -, hsource⟩ := (mem_sources_iff hwf hfind).mp hs
  obtain ⟨-, _, _, -, -, -, rfl⟩ := sourceOf?_eq_some_iff.mp hsource
  simp only [Source.read, Attempt.mapError_eq_ok_iff] at hread ⊢
  exact hremains.readText hwf hentry hread

/-- A batch that is stored has been read, chunked, and worked off in groups. -/
theorem storeBatch_eq_ok {store : Store} {p after : Progress σ}
    (h : ix.storeBatch store p files = (.ok (), after)) :
    ∃ chunks parts, ix.chunkBatch p.tree files = .ok chunks ∧ parts.flatten = chunks ∧
      steps (ix.storeGroup store) parts p = (.ok (), after) := by
  unfold storeBatch at h
  cases hchunks : ix.chunkBatch p.tree files with
  | error fault => simp [hchunks] at h
  | ok chunks =>
      exact ⟨chunks, _, rfl, flatten_groups ix.settings.embedBatchSize chunks,
        by simpa only [hchunks] using h⟩

/-- **What a build has done** when it succeeds: what each batch of sources does. -/
theorem buildInto_done {stamp : Stamp} {root : Path} {state final : σ} {after : Tree}
    (done : List Source → Progress σ → Prop)
    (hmake : tree.makeDirectoriesTo directory = (none, ready))
    (h : ix.buildInto stamp directory root collection files tree state = (.ok (), after, final))
    (hstart : ∀ place mode table noted, done [] ⟨written ready place mode table, state, noted⟩)
    (hstep : ∀ (store : Store) (place : Path) (mode : Nat) (held : Table),
      store.Holds ready place held → ∀ batch, (∀ s ∈ batch, s ∈ files) → ∀ sofar p after,
        Filling ready place mode held.serial p.tree → done sofar p →
        ix.storeBatch store p batch = (.ok (), after) → done (sofar ++ batch) after) :
    ∃ noted, done files ⟨after, final, noted⟩ := by
  unfold buildInto at h
  rcases create_cases stamp (ix.describe root collection stamp) hmake with
    ⟨fault, hcreate⟩ | ⟨place, mode, held, hholds, -, hcreate⟩
  · simp [hcreate] at h
  · simp only [hcreate] at h
    cases hsteps : steps (ix.storeBatch ⟨directory, some held⟩)
        (groups ix.settings.fileBatchSize files)
        ⟨written ready place mode held, state, decide (0 < ix.embedder.dims)⟩ with
    | mk result p =>
        obtain ⟨rfl, rfl, rfl⟩ : result = .ok () ∧ p.tree = after ∧ p.state = final := by
          simpa [hsteps] using h
        have hall := steps_done id
          (fun sofar p => Filling ready place mode held.serial p.tree ∧ done sofar p)
          (fun batch mem sofar p after hp hrun => by
            have hfilling := filling_storeBatch ix hholds batch hp.1
            rw [hrun] at hfilling
            exact ⟨hfilling, hstep _ place mode held hholds batch
              (fun s hs => mem_of_mem_groups mem hs) sofar p after hp.1 hp.2 hrun⟩)
          [] ⟨⟨held, rfl, rfl⟩, hstart place mode held _⟩ hsteps
        rw [List.nil_append, List.flatMap_id, flatten_groups] at hall
        exact ⟨p.noted, hall.2⟩

/-- A build that succeeds has cleared away what was in its way, made a directory, built the
collection there, and moved it to its place. -/
theorem buildNew_eq_ok {stamp : Stamp} {root : Path} {state final : σ} {r : Retriever σ}
    {after : Tree} (h : ix.buildNew stamp location root collection files tree state =
      (.ok r, after, final)) :
    ∃ cleared ready filled, removeIfThere tree (staging location) = .ok cleared ∧
      cleared.makeDirectoriesTo (staging location) = (none, ready) ∧
      ix.buildInto stamp (staging location) root collection files cleared state =
        (.ok (), filled, final) ∧
      ix.install location collection filled = (.ok r, after) := by
  unfold buildNew at h
  cases hremove : removeIfThere tree (staging location) with
  | error fault => simp [hremove] at h
  | ok cleared =>
      simp only [hremove] at h
      cases hmake : cleared.makeDirectoriesTo (staging location) with
      | mk outcome ready =>
          cases outcome with
          | some fault => simp [buildInto_stopped _ _ _ _ _ _ hmake] at h
          | none =>
              cases hbuild : ix.buildInto stamp (staging location) root collection files cleared
                  state with
              | mk result rest =>
                  cases result with
                  | error fault => simp [hbuild] at h
                  | ok done =>
                      simp only [hbuild, Prod.mk.injEq] at h
                      obtain ⟨hresult, hafter, hfinal⟩ := h
                      exact ⟨cleared, ready, rest.1, rfl, hmake, hfinal ▸ hbuild,
                        Prod.ext hresult hafter⟩

end Workbench.Index.CodebaseIndex

namespace Workbench

open Workbench.Files Workbench.Files.Tree Workbench.Collection Workbench.Collection.Store
  Workbench.Service

/-- The embedder that also notes the texts that it is asked for. -/
def Service.Embedder.recording {σ : Type} (e : Embedder σ) : Embedder (σ × List String) where
  model := e.model
  dims := e.dims
  embed texts state :=
    ((e.embed texts state.1).1, ((e.embed texts state.1).2, state.2 ++ texts))

namespace Index.CodebaseIndex

variable {σ : Type} {ix : CodebaseIndex σ} {store : Store} {tree ready : Tree}
  {location collection : String} {files : List Source} {chunks : List PendingChunk}

/-- The index whose embedder notes the texts that it is asked for. -/
def recorded (ix : CodebaseIndex σ) : CodebaseIndex (σ × List String) :=
  ⟨ix.runtimeDir, ix.settings, ix.embedder.recording, ix.grammars⟩

theorem state_noteDims {p after : Progress σ} {vectors : List Vector.Embedding}
    (h : noteDims store p vectors = .ok after) : after.state = p.state := by
  unfold noteDims at h
  split at h
  · obtain ⟨noted, -, hafter⟩ := Attempt.bind_eq_ok_iff.mp h
    obtain rfl := Except.ok.inj hafter
    rfl
  · obtain rfl := Except.ok.inj h
    rfl

/-- A group of chunks is embedded whole. -/
theorem recorded_storeGroup (ix : CodebaseIndex σ) (store : Store) (chunks : List PendingChunk)
    (p : Progress (σ × List String)) :
    (ix.recorded.storeGroup store p chunks).2.state.2 = p.state.2 ++ chunks.map (·.text) := by
  have hembed : (ix.recorded.embedder.embed (chunks.map (·.text)) p.state).2.2 =
      p.state.2 ++ chunks.map (·.text) := rfl
  unfold storeGroup
  generalize ix.recorded.embedder.embed (chunks.map (·.text)) p.state = answer at hembed
  obtain ⟨result, state⟩ := answer
  cases result with
  | error fault => exact hembed
  | ok vectors =>
      by_cases hcount : vectors.length ≠ chunks.length
      · simpa [hcount] using hembed
      · simp only [hcount, if_false]
        split
        · exact hembed
        · next noted hnote =>
            have hstate := state_noteDims hnote
            split
            · rw [hstate]
              exact hembed
            · next after _ =>
                rw [hstate]
                exact hembed

/-- A batch of sources is embedded whole. -/
theorem recorded_storeBatch {p after : Progress (σ × List String)}
    (h : ix.recorded.storeBatch store p files = (.ok (), after)) :
    ∃ chunks, ix.chunkBatch p.tree files = .ok chunks ∧
      after.state.2 = p.state.2 ++ chunks.map (·.text) := by
  obtain ⟨chunks, parts, hchunks, rfl, hsteps⟩ := storeBatch_eq_ok h
  refine ⟨parts.flatten, hchunks, ?_⟩
  have hall := steps_done (fun part : List PendingChunk => part.map (·.text))
    (fun texts (q : Progress (σ × List String)) => q.state.2 = p.state.2 ++ texts)
    (fun part _ texts q next hq hrun => by
      have hgroup := recorded_storeGroup ix store part q
      rw [hrun, hq, List.append_assoc] at hgroup
      exact hgroup) [] (by simp) hsteps
  rw [hall]
  simp [List.flatMap, List.map_flatten]

/-- **Everything is embedded**: the chunks of all sources, in their order. -/
theorem embedded_buildNew {stamp : Stamp} {root : Path} {state : σ} {log : List String}
    {r : Retriever (σ × List String)} {after : Tree} {final : σ × List String}
    (hread : ∀ other, tree.Remains other → ∀ s ∈ files, ∀ text, s.read other = .ok text →
      s.read tree = .ok text)
    (h : ix.recorded.buildNew stamp location root collection files tree (state, log) =
      (.ok r, after, final)) :
    ∃ chunks, ix.chunkBatch tree files = .ok chunks ∧ final.2 = log ++ chunks.map (·.text) := by
  obtain ⟨cleared, ready, filled, hremove, hmake, hbuild, -⟩ := buildNew_eq_ok h
  have hremains : tree.Remains ready :=
    (Remains.of_cleared (cleared_of_removeIfThere hremove)).trans (Remains.makeDirectoriesTo hmake)
  obtain ⟨noted, hdone⟩ := buildInto_done
    (fun sofar (p : Progress (σ × List String)) => ∃ chunks, ix.chunkBatch tree sofar = .ok chunks ∧
      p.state.2 = log ++ chunks.map (·.text))
    hmake hbuild (fun _ _ _ _ => ⟨[], rfl, by simp⟩)
    fun store place mode held hholds batch hin sofar p next hfilling hsofar hrun => by
      obtain ⟨chunks, hchunks, hlog⟩ := hsofar
      obtain ⟨more, hmore, hnext⟩ := recorded_storeBatch hrun
      obtain ⟨table, htree, -⟩ := hfilling
      have hwritten : tree.Remains p.tree :=
        htree ▸ hremains.trans (Remains.put ready place (.inr ⟨mode, table, rfl⟩))
      have hbatch : ix.chunkBatch tree batch = .ok more :=
        chunkBatch_of_read (fun s hs => hread _ hwritten s (hin s hs)) hmore
      refine ⟨chunks ++ more, chunkBatch_append hchunks hbatch, ?_⟩
      rw [hnext, hlog, List.map_append, List.append_assoc]
  exact hdone

end Index.CodebaseIndex

end Workbench
