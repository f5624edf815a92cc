/-
# Sources without a language

A build reads sources by their languages, and fails at one that has none. It never gets that
far: what it builds from are the sources of the project, which are listed by the same
languages.

* `Understood` — an attempt that does not fail for a source without a language.
* `CodebaseIndex.understood_chunkBatch` — sources with languages are understood.
* `CodebaseIndex.understood_build` — **a build understands all its sources.**
-/

import Workbench.Proofs.Attempt
import Workbench.Proofs.Index.Batching
import Workbench.Proofs.Index.Placing
import Workbench.Proofs.Index.Sources

namespace Workbench.Index

open Workbench.Files Workbench.Collection

variable {α β σ : Type}

/-- The fault is that a source has no language. -/
def IndexFault.isForeign : IndexFault → Bool
  | build (.noGrammar _) => true
  | _ => false

/-- An attempt does not fail for a source without a language. -/
def Understood (x : Except IndexFault α) : Prop :=
  ∀ fault, x = .error fault → fault.isForeign = false

@[simp] theorem understood_ok (a : α) : Understood (.ok a) := by
  intro fault h
  cases h

@[simp] theorem understood_error {fault : IndexFault} :
    Understood (.error fault : Except IndexFault α) ↔ fault.isForeign = false := by
  simp [Understood]

theorem Understood.bind {x : Except IndexFault α} {f : α → Except IndexFault β}
    (hx : Understood x) (hf : ∀ a, Understood (f a)) : Understood (x >>= f) := by
  cases x with
  | error fault => exact understood_error.mpr (hx fault rfl)
  | ok a => exact hf a

theorem understood_removeIfThere (tree : Tree) (path : String) :
    Understood (removeIfThere tree path) := by
  unfold removeIfThere
  split
  · apply understood_ok
  · apply understood_ok
  · exact understood_error.mpr rfl

/-! ### Stores -/

theorem understood_query (store : Store) (tree : Tree) (name : String) :
    Understood (store.query tree name) := by
  unfold Store.query
  split
  · exact understood_error.mpr rfl
  · split
    · split <;> apply understood_ok
    · exact understood_error.mpr rfl
    · apply understood_ok

theorem understood_update (store : Store) (tree : Tree) (name : String) (change : Table → Table) :
    Understood (store.update tree name change) := by
  apply (understood_query store tree name).bind
  intro queried
  split
  · split
    · cases tree.write (Store.file store.location) (.database (change _)) with
      | error fault => exact understood_error.mpr rfl
      | ok after => apply understood_ok
    · exact understood_error.mpr rfl
  · exact understood_error.mpr rfl

theorem understood_description (store : Store) (tree : Tree) :
    Understood (store.description tree) := by
  apply (understood_query store tree Store.descriptionTable).bind
  intro table
  split
  · apply understood_ok
  · split
    · apply understood_ok
    · exact understood_error.mpr rfl

theorem understood_counts (store : Store) (tree : Tree) : Understood (store.counts tree) := by
  apply (understood_query store tree Store.chunkTable).bind
  intro table
  apply understood_ok

theorem understood_create (tree : Tree) (location : String) (stamp : Stamp) (d : Description) :
    Understood (Store.create tree location stamp d).1 := by
  unfold Store.create
  split
  · exact understood_error.mpr rfl
  · split
    · exact understood_error.mpr rfl
    · split
      · exact understood_error.mpr rfl
      · split
        · apply understood_ok
        · exact understood_error.mpr rfl

/-! ### Builds -/

namespace CodebaseIndex

variable {ix : CodebaseIndex σ} {files : List Source} {tree : Tree}

theorem understood_steps {π : Type} {step : π → α → Except IndexFault Unit × π} {xs : List α}
    (hstep : ∀ x ∈ xs, ∀ p, Understood (step p x).1) (p : π) :
    Understood (steps step xs p).1 := by
  induction xs generalizing p with
  | nil => apply understood_ok
  | cons x rest ih =>
      have hfirst := hstep x (.head _) p
      rw [steps]
      cases hx : step p x with
      | mk result after =>
          rw [hx] at hfirst
          cases result with
          | error fault => exact understood_error.mpr (hfirst fault rfl)
          | ok done => exact ih (fun y mem => hstep y (.tail _ mem)) after

theorem understood_noteDims (store : Store) (p : Progress σ) (vectors : List Vector.Embedding) :
    Understood (noteDims store p vectors) := by
  unfold noteDims
  split
  · apply (understood_update store p.tree _ _).bind
    intro after
    apply understood_ok
  · apply understood_ok

theorem understood_storeGroup (store : Store) (p : Progress σ) (chunks : List PendingChunk) :
    Understood (ix.storeGroup store p chunks).1 := by
  unfold storeGroup
  split
  · exact understood_error.mpr rfl
  · next vectors state _ =>
      simp only
      split
      · exact understood_error.mpr rfl
      · split
        · next fault hnote =>
            exact understood_error.mpr (understood_noteDims store _ vectors fault hnote)
        · split
          · next fault hinsert =>
              exact understood_error.mpr (understood_update store _ _ _ fault hinsert)
          · apply understood_ok

theorem isForeign_of_read {s : Source} {fault : BuildFault} (h : s.read tree = .error fault) :
    (IndexFault.build fault).isForeign = false := by
  obtain ⟨reason, -, rfl⟩ := Attempt.mapError_eq_error_iff.mp h
  rfl

/-- A source with a language is understood. -/
theorem understood_chunkSource {s : Source}
    (hlanguage : (ix.languages.get? s.extension).isSome = true) :
    Understood (ix.chunkSource tree s) := by
  obtain ⟨language, hget⟩ := Option.isSome_iff_exists.mp hlanguage
  apply Understood.bind
  · intro fault hread
    obtain ⟨reason, hreason, rfl⟩ := Attempt.mapError_eq_error_iff.mp hread
    exact isForeign_of_read hreason
  · intro text
    rw [hget]
    dsimp only
    split
    · exact understood_error.mpr rfl
    · apply understood_ok

/-- **Sources with languages** are understood. -/
theorem understood_chunkBatch
    (hlanguage : ∀ s ∈ files, (ix.languages.get? s.extension).isSome = true) :
    Understood (ix.chunkBatch tree files) := by
  intro fault h
  rcases Attempt.bind_eq_error_iff.mp h with hchunks | ⟨chunks, -, h⟩
  · obtain ⟨s, mem, hs⟩ := Attempt.exists_of_mapM_eq_error hchunks
    exact understood_chunkSource (hlanguage s mem) fault hs
  · cases h

theorem understood_storeBatch (store : Store) (p : Progress σ)
    (hlanguage : ∀ s ∈ files, (ix.languages.get? s.extension).isSome = true) :
    Understood (ix.storeBatch store p files).1 := by
  unfold storeBatch
  split
  · next fault hchunks =>
      exact understood_error.mpr (understood_chunkBatch hlanguage fault hchunks)
  · next chunks _ =>
      apply understood_steps
      intro part _ p
      apply understood_storeGroup

theorem understood_buildInto (stamp : Stamp) (directory : String) (root : Path)
    (collection : String) (tree : Tree) (state : σ)
    (hlanguage : ∀ s ∈ files, (ix.languages.get? s.extension).isSome = true) :
    Understood (ix.buildInto stamp directory root collection files tree state).1 := by
  unfold buildInto
  split
  · next fault after hcreate =>
      have hfault := understood_create tree directory stamp (ix.describe root collection stamp)
      exact understood_error.mpr (hfault fault (congrArg Prod.fst hcreate))
  · apply understood_steps
    intro batch mem p
    apply understood_storeBatch
    intro s hs
    exact hlanguage s (mem_of_mem_groups mem hs)

theorem understood_install (location collection : String) (tree : Tree) :
    Understood (ix.install location collection tree).1 := by
  unfold install
  split
  · exact understood_error.mpr rfl
  · split
    · exact understood_error.mpr rfl
    · split
      · next fault hcounts => exact understood_error.mpr (understood_counts _ _ fault hcounts)
      · apply understood_ok

theorem understood_buildNew (stamp : Stamp) (location : String) (root : Path)
    (collection : String) (tree : Tree) (state : σ)
    (hlanguage : ∀ s ∈ files, (ix.languages.get? s.extension).isSome = true) :
    Understood (ix.buildNew stamp location root collection files tree state).1 := by
  unfold buildNew
  split
  · next fault hremove =>
      exact understood_error.mpr (understood_removeIfThere _ _ fault hremove)
  · next cleared _ =>
      have hbuilt := understood_buildInto stamp (staging location) root collection cleared state
        hlanguage
      split
      · next fault _ _ hfault =>
          exact understood_error.mpr (hbuilt fault (congrArg Prod.fst hfault))
      · apply understood_install

theorem understood_reuse (tree : Tree) (location collection : String) :
    Understood (ix.reuse tree location collection) := by
  unfold reuse
  apply Understood.bind
  · unfold openThere
    split
    · apply understood_ok
    · exact understood_error.mpr rfl
  · intro store
    apply (understood_description store tree).bind
    intro found
    split
    · exact understood_error.mpr rfl
    · split
      · exact understood_error.mpr rfl
      · apply understood_ok

theorem understood_projectRoot (tree : Tree) (project : String) :
    Understood (projectRoot tree project) := by
  unfold projectRoot
  split
  · exact understood_error.mpr rfl
  · split
    · apply understood_ok
    · exact understood_error.mpr rfl

theorem understood_locate (tree : Tree) (root : Path) (collection : String) :
    Understood (ix.locate tree root collection) := by
  unfold locate
  split
  · simp only
    split
    · apply understood_ok
    · next fault hdigest =>
        apply understood_error.mpr
        rcases Attempt.bind_eq_error_iff.mp hdigest with hlisting | ⟨listing, -, h⟩
        · obtain ⟨s, -, hs⟩ := Attempt.exists_of_mapM_eq_error hlisting
          rcases Attempt.bind_eq_error_iff.mp hs with hread | ⟨text, -, hs⟩
          · exact isForeign_of_read hread
          · cases hs
        · cases h
  · apply understood_ok

/-- A source has a language, whatever the tree is like. -/
theorem isSome_of_mem_sources {languages : Code.Registry} {root : Path} {s : Source}
    (h : s ∈ sources languages tree root) : (languages.get? s.extension).isSome = true := by
  rw [sources, List.mem_mergeSort] at h
  obtain ⟨e, -, hsource⟩ := List.mem_filterMap.mp h
  obtain ⟨-, _, _, -, -, hlanguage, rfl⟩ := sourceOf?_eq_some_iff.mp hsource
  exact hlanguage

/-- **A build understands all its sources**: it never fails for one without a language. -/
theorem understood_build (stamp : Stamp) (tree : Tree) (project collection : String) (state : σ) :
    Understood (ix.build stamp tree project collection state).result := by
  unfold build
  split
  · next fault hroot => exact understood_error.mpr (understood_projectRoot _ _ fault hroot)
  · next root _ =>
      split
      · next fault hlocate => exact understood_error.mpr (understood_locate _ _ _ fault hlocate)
      · next location scanned hlocate =>
          split
          · apply understood_reuse
          · apply understood_buildNew
            rw [(locate_eq_ok hlocate).1]
            intro s hs
            exact isSome_of_mem_sources hs

end CodebaseIndex

end Workbench.Index
