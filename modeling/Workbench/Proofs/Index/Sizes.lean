/-
# Sizes of vectors

A collection is described by the size of its vectors: the one that the embedder tells, or that
of the first vector if it tells none. All vectors are stored as the embedder gave them, and no
one looks at their sizes. So the description tells the size of all vectors only when the
embedder keeps to one size, and to the one that it tells.

* `Embedder.Answered` — what an embedder gave, batch after batch.
* `CodebaseIndex.Gathered` — a build under way has stored what the embedder gave.
* `CodebaseIndex.sizes_agree_iff` — **when the sizes of the vectors are the one that is noted.**
* `CodebaseIndex.sizes_differ` — builds that succeed and note another size.
-/

import Workbench.Proofs.Collection.Reading
import Workbench.Proofs.Index.Loading

namespace Workbench

open Workbench.Files Workbench.Files.Tree Workbench.Collection Workbench.Collection.Store
  Workbench.Service Workbench.Vector Workbench.Index

/-! ### What an embedder gives -/

/-- An embedder was asked for texts, batch after batch, and gave a vector for each. -/
inductive Service.Embedder.Answered {σ : Type} (e : Embedder σ) (start : σ) :
    List String → List Embedding → σ → Prop where
  | none : e.Answered start [] [] start
  | more {texts batch : List String} {vectors found : List Embedding} {state after : σ} :
      e.Answered start texts vectors state → e.embed batch state = (.ok found, after) →
      found.length = batch.length → e.Answered start (texts ++ batch) (vectors ++ found) after

theorem Service.Embedder.Answered.length_eq {σ : Type} {e : Embedder σ} {start state : σ}
    {texts : List String} {vectors : List Embedding} (h : e.Answered start texts vectors state) :
    vectors.length = texts.length := by
  induction h with
  | none => rfl
  | more _ _ hcount ih => rw [List.length_append, List.length_append, ih, hcount]

/-- A new database has no rows but those that were there. -/
theorem Collection.Store.rows_of_create {tree ready made : Tree} {location : String}
    {stamp : Stamp} {d : Description} {table : Table}
    (hmake : tree.makeDirectoriesTo location = (none, ready))
    (hcreate : Store.create tree location stamp d = (.ok ⟨location, some table⟩, made)) :
    table.rows = rowsAt ready location := by
  unfold Store.create at hcreate
  rw [hmake] at hcreate
  dsimp only at hcreate
  split at hcreate
  · simp at hcreate
  · split at hcreate
    · simp at hcreate
    · next initially hinitial =>
        split at hcreate
        · obtain ⟨rfl, -⟩ : initially = table ∧ _ := by simpa using hcreate
          exact (initial_eq_some hinitial).2
        · simp at hcreate

namespace Index.CodebaseIndex

variable {σ : Type} {ix : CodebaseIndex σ} {store : Store} {tree cleared ready after : Tree}
  {place root : Path} {mode : Nat} {table : Table} {chunks group : List PendingChunk}
  {vectors found : List Embedding} {start state final : σ} {p next : Progress σ}
  {stamp : Stamp} {directory location project collection : String} {files : List Source}
  {scanned : Option (List Source)} {dir : List String} {name : String} {r : Retriever σ}

/-! ### A build under way -/

/-- Before anything is stored the size is the one that the embedder tells. -/
theorem tableWith_nil (h : table.description = some (ix.describe root collection stamp)) :
    ix.tableWith table [] [] = table := by
  obtain ⟨serial, description, rows⟩ := table
  obtain rfl : description = some (ix.describe root collection stamp) := h
  by_cases hdims : 0 < ix.embedder.dims
  · simp [tableWith, sizeNoted, describe, hdims]
  · simp [tableWith, sizeNoted, describe, Nat.eq_zero_of_not_pos hdims]

/-- A build under way has stored chunks with the vectors that the embedder gave for them, and
has changed nothing else. -/
structure Gathered (ix : CodebaseIndex σ) (start : σ) (ready : Tree) (place : Path) (mode : Nat)
    (table : Table) (chunks : List PendingChunk) (vectors : List Embedding) (p : Progress σ) :
    Prop where
  answered : ix.embedder.Answered start (chunks.map (·.text)) vectors p.state
  tree : p.tree = written ready place mode (ix.tableWith table chunks vectors)
  noted : p.noted = (decide (0 < ix.embedder.dims) || !vectors.isEmpty)

theorem Gathered.length_eq (h : Gathered ix start ready place mode table chunks vectors p) :
    vectors.length = chunks.length := by
  rw [h.answered.length_eq, List.length_map]

/-- **A group that is stored** is stored with what the embedder gave for it. -/
theorem gathered_storeGroup (hholds : store.Holds ready place table)
    (h : Gathered ix start ready place mode table chunks vectors p)
    (hrun : ix.storeGroup store p group = (.ok (), next)) :
    ∃ found,
      Gathered ix start ready place mode table (chunks ++ group) (vectors ++ found) next := by
  unfold storeGroup at hrun
  cases hembed : ix.embedder.embed (group.map (·.text)) p.state with
  | mk answer state =>
      cases answer with
      | error fault => simp [hembed] at hrun
      | ok found =>
          by_cases hcount : found.length = group.length
          · have hnote := noteDims_with (p := { p with state }) hholds h.tree h.noted found
            have hserial (d : Option Description) : Table.serial
                { ix.tableWith table chunks vectors with description := d } = table.serial := rfl
            simp only [hembed, hcount, ne_eq, not_true_eq_false, if_false, hnote, Store.insert,
              hholds.update_written (hserial _)] at hrun
            obtain rfl := congrArg Prod.snd hrun
            refine ⟨found, ?_, ?_, rfl⟩
            · rw [List.map_append]
              exact h.answered.more hembed (by rw [hcount, List.length_map])
            · simp [tableWith, List.zipWith_append h.length_eq.symm]
          · simp [hembed, hcount] at hrun

/-- A build under way has stored some chunks with what the embedder gave for them. -/
def Gathering (ix : CodebaseIndex σ) (start : σ) (ready : Tree) (place : Path) (mode : Nat)
    (table : Table) (p : Progress σ) : Prop :=
  ∃ chunks vectors, Gathered ix start ready place mode table chunks vectors p

/-- Batches of sources are worked off in groups, so each stores what the embedder gave. -/
theorem gathering_storeBatch (hholds : store.Holds ready place table)
    (h : Gathering ix start ready place mode table p)
    (hrun : ix.storeBatch store p files = (.ok (), next)) :
    Gathering ix start ready place mode table next := by
  obtain ⟨_, parts, -, -, hsteps⟩ := storeBatch_eq_ok hrun
  refine steps_succeeded (Gathering ix start ready place mode table) ?_ h hsteps
  rintro group - p next ⟨chunks, vectors, hgathered⟩ hgroup
  obtain ⟨found, hnext⟩ := gathered_storeGroup hholds hgathered hgroup
  exact ⟨_, _, hnext⟩

/-- **A build that succeeds** has stored what the embedder gave, in a database that it has
described. -/
theorem gathering_buildInto (hmake : tree.makeDirectoriesTo directory = (none, ready))
    (h : ix.buildInto stamp directory root collection files tree state = (.ok (), after, final)) :
    ∃ place mode table noted, Holds ⟨directory, some table⟩ ready place table ∧
      table.description = some (ix.describe root collection stamp) ∧
      table.rows = rowsAt ready directory ∧
      Gathering ix state ready place mode table ⟨after, final, noted⟩ := by
  unfold buildInto at h
  rcases create_cases stamp (ix.describe root collection stamp) hmake with
    ⟨fault, hcreate⟩ | ⟨place, mode, table, hholds, hdescription, hcreate⟩
  · simp [hcreate] at h
  simp only [hcreate] at h
  let begun : Progress σ :=
    ⟨written ready place mode table, state, decide (0 < ix.embedder.dims)⟩
  have hbegun : Gathering ix state ready place mode table begun :=
    ⟨[], [], .none, by rw [tableWith_nil hdescription], by simp [begun]⟩
  cases hsteps : steps (ix.storeBatch ⟨directory, some table⟩)
      (groups ix.settings.fileBatchSize files) begun with
  | mk result p =>
      obtain ⟨rfl, rfl, rfl⟩ : result = .ok () ∧ p.tree = after ∧ p.state = final := by
        simpa [begun, hsteps] using h
      refine ⟨place, mode, table, p.noted, hholds, hdescription,
        rows_of_create hmake hcreate, ?_⟩
      exact steps_succeeded (Gathering ix state ready place mode table)
        (fun batch _ p next hp hrun => gathering_storeBatch hholds hp hrun) hbegun hsteps

/-- The database of a collection that was built: its chunks have the vectors that the embedder
gave for their texts, and it is described by the size that was noted. -/
structure Built (ix : CodebaseIndex σ) (root : Path) (collection : String) (stamp : Stamp)
    (start : σ) (table : Table) (chunks : List StoredChunk) (final : σ) : Prop where
  rows : table.rows = chunks.map (·.row)
  answered : ix.embedder.Answered start (chunks.map (·.text)) (chunks.map (·.embedding)) final
  described : table.description = some { ix.describe root collection stamp with
    dims := ix.sizeNoted (chunks.map (·.embedding)) }

/-- In a new database there is nothing but what was stored. -/
theorem Gathered.built (h : Gathered ix start ready place mode table chunks vectors p)
    (hrows : table.rows = []) (hdescription : table.description =
      some (ix.describe root collection stamp)) :
    Built ix root collection stamp start (ix.tableWith table chunks vectors)
      (List.zipWith PendingChunk.stored chunks vectors) p.state := by
  have htexts : (List.zipWith PendingChunk.stored chunks vectors).map (·.text) =
      chunks.map (·.text) := by
    conv => rhs; rw [← List.map_fst_zip h.length_eq.ge, List.map_map]
    rw [← List.map_uncurry_zip_eq_zipWith, List.map_map]
    rfl
  have hvectors :
      (List.zipWith PendingChunk.stored chunks vectors).map (·.embedding) = vectors := by
    conv => rhs; rw [← List.map_snd_zip h.length_eq.le]
    rw [← List.map_uncurry_zip_eq_zipWith, List.map_map]
    rfl
  refine ⟨by simp [tableWith, hrows], ?_, ?_⟩
  · rw [htexts, hvectors]
    exact h.answered
  · rw [hvectors]
    simp [tableWith, hdescription]

/-! ### A build -/

theorem built_buildNew (hwf : tree.WellFormed) (hopen : tree.HasDirectory (tree.start location))
    (hplaced : Placed location dir name) (hsteady : Steady tree location)
    (hnew : tree.isThere location = false)
    (h : ix.buildNew stamp location root collection files tree state = (.ok r, after, final)) :
    ∃ table chunks place mode,
      after.find true (Store.file location) = .ok ⟨place, some (.file mode (.database table))⟩ ∧
      Built ix root collection stamp state table chunks final ∧
      r = ⟨collection, location, some ⟨location, some table⟩, ix.embedder⟩ := by
  obtain ⟨cleared, ready, filled, hremove, hmake, hbuild, hinstall⟩ := buildNew_eq_ok h
  obtain ⟨mid, base, hbegun⟩ := exists_begun hwf hopen hplaced hsteady hremove hmake
  obtain ⟨place, mode, table, noted, hholds, hdescription, hrows, chunks, vectors, hgathered⟩ :=
    gathering_buildInto hmake hbuild
  obtain ⟨hgiven, rfl, -⟩ := hbegun.place_eq hplaced rfl hholds
  have hnone : table.rows = [] := by
    rw [hrows]
    simp [rowsAt, databaseAt, Tree.read, stat, hbegun.find_file hplaced hgiven]
  obtain rfl : filled = _ := hgathered.tree
  rcases install_cases ix collection hbegun hplaced hgiven (hbegun.not_there hplaced hnew) mode
      (ix.tableWith table chunks vectors) with ⟨fault, herror⟩ | ⟨-, hfound, hmoved⟩
  · simp [hinstall] at herror
  · obtain ⟨hr, rfl⟩ := Prod.ext_iff.mp (hinstall.symm.trans hmoved)
    exact ⟨_, _, _, mode, hfound, hgathered.built hnone hdescription, Except.ok.inj hr⟩

/-- A collection that is built anew holds what the embedder gave. -/
theorem built_build (hwf : tree.WellFormed) (hhere : tree.HasDirectory tree.here)
    (hroot : projectRoot tree project = .ok root)
    (hlocate : ix.locate tree root collection = .ok (location, scanned))
    (hsteady : Steady tree location) (hnew : tree.isThere location = false)
    (h : (ix.build stamp tree project collection state).result = .ok r) :
    ∃ table chunks, Store.table ⟨location, some table⟩
        (ix.build stamp tree project collection state).tree = .ok table ∧
      Built ix root collection stamp state table chunks
        (ix.build stamp tree project collection state).state ∧
      r = ⟨collection, location, some ⟨location, some table⟩, ix.embedder⟩ := by
  obtain ⟨_, -, hdir⟩ := find_projectRoot hwf hhere hroot
  obtain ⟨dir, name, hplaced⟩ := exists_placed_of_locate (hwf.plain hdir) hlocate
  rw [build_eq_of_new hroot hlocate rfl hnew] at h ⊢
  obtain ⟨table, chunks, place, mode, hfound, hbuilt, hr⟩ :=
    built_buildNew hwf (hasDirectory_start hhere location) hplaced hsteady hnew (Prod.ext h rfl)
  exact ⟨table, chunks, Store.table_eq hfound, hbuilt, hr⟩

/-- The vectors have the size that is noted when they have one size, and the one that the
embedder tells if it tells any. -/
theorem forall_length_eq_sizeNoted_iff (ix : CodebaseIndex σ) (vectors : List Embedding) :
    (∀ v ∈ vectors, v.length = ix.sizeNoted vectors) ↔
      (0 < ix.embedder.dims → ∀ v ∈ vectors, v.length = ix.embedder.dims) ∧
        ∀ v ∈ vectors, ∀ w ∈ vectors, v.length = w.length := by
  constructor
  · intro h
    refine ⟨fun hdims v hv => ?_, fun v hv w hw => (h v hv).trans (h w hw).symm⟩
    rw [h v hv, sizeNoted, if_pos hdims]
  · rintro ⟨htold, hsame⟩ v hv
    by_cases hdims : 0 < ix.embedder.dims
    · rw [sizeNoted, if_pos hdims, htold hdims v hv]
    · cases vectors with
      | nil => cases hv
      | cons first rest =>
          rw [sizeNoted, if_neg hdims]
          exact hsame v hv first (.head _)

/-- **When the sizes of the vectors are the one that is noted.** A build of a collection that is
there changes nothing. One of a collection that is not stores the vectors that the embedder
gives for the texts of the chunks, whatever their sizes are, and notes the size that the
embedder tells, or else that of the first vector. So all of them have the size that is noted
exactly when the embedder kept to one size, and to the one that it tells. -/
theorem sizes_agree_iff (ix : CodebaseIndex σ) (stamp : Stamp) (tree : Tree) (root : Path)
    (project collection location : String) (scanned : Option (List Source)) (state : σ)
    (r : Retriever σ) (wellFormed : tree.WellFormed) (here : tree.HasDirectory tree.here)
    (found : projectRoot tree project = .ok root)
    (located : ix.locate tree root collection = .ok (location, scanned))
    (built : (ix.build stamp tree project collection state).result = .ok r) :
    (tree.isThere location = true →
      (ix.build stamp tree project collection state).tree = tree ∧
      (ix.build stamp tree project collection state).state = state) ∧
    (tree.isThere location = false → Steady tree location → ∃ store table chunks d,
      r.store = some store ∧
      store.table (ix.build stamp tree project collection state).tree = .ok table ∧
      store.chunks (ix.build stamp tree project collection state).tree = .ok chunks ∧
      table.description = some d ∧
      ix.embedder.Answered state (chunks.map (·.text)) (chunks.map (·.embedding))
        (ix.build stamp tree project collection state).state ∧
      d.dims = ix.sizeNoted (chunks.map (·.embedding)) ∧
      ((∀ c ∈ chunks, c.embedding.length = d.dims) ↔
        (0 < ix.embedder.dims → ∀ c ∈ chunks, c.embedding.length = ix.embedder.dims) ∧
          ∀ c ∈ chunks, ∀ c' ∈ chunks, c.embedding.length = c'.embedding.length)) := by
  constructor
  · intro there
    rw [build_of_there found located there]
    exact ⟨rfl, rfl⟩
  · intro new steady
    obtain ⟨table, chunks, htable, hbuilt, rfl⟩ :=
      built_build wellFormed here found located steady new built
    refine ⟨_, table, chunks, _, rfl, htable, ?_, hbuilt.described, hbuilt.answered, rfl, ?_⟩
    · simp only [Store.chunks, htable, Attempt.ok_bind, hbuilt.rows, mapM_chunk_row]
      rfl
    · simpa using forall_length_eq_sizeNoted_iff ix (chunks.map (·.embedding))

theorem sizes_agree_iff_namesakeTree :
    projectRoot namesakeTree "/c" = .ok ["c"] ∧
    sampleIndex.locate namesakeTree ["c"] "a_b" = .ok ("/r/a_b_c", none) ∧
    namesakeTree.isThere "/r/a_b_c" = false ∧ Steady namesakeTree "/r/a_b_c" ∧
    ∃ r, (sampleIndex.build sampleStamp namesakeTree "/c" "a_b" ()).result = .ok r ∧
      ∃ store table chunks d, r.store = some store ∧
        store.table builtNamesakeTree = .ok table ∧ store.chunks builtNamesakeTree = .ok chunks ∧
        table.description = some d ∧
        d.dims = sampleIndex.sizeNoted (chunks.map (·.embedding)) ∧
        ((∀ c ∈ chunks, c.embedding.length = d.dims) ↔
          ∀ c ∈ chunks, ∀ c' ∈ chunks, c.embedding.length = c'.embedding.length) := by
  have hlocate : sampleIndex.locate namesakeTree ["c"] "a_b" = .ok ("/r/a_b_c", none) := by
    decide +kernel
  have hnew : namesakeTree.isThere "/r/a_b_c" = false := by decide +kernel
  have hsteady : Steady namesakeTree "/r/a_b_c" := .inl (by decide +kernel)
  obtain ⟨r, hr⟩ :
      ∃ r, (sampleIndex.build sampleStamp namesakeTree "/c" "a_b" ()).result = .ok r := by
    refine Attempt.isOk_iff.mp ?_
    rw [build_namesakeTree]
    decide +kernel
  obtain ⟨store, table, chunks, d, hstore, htable, hchunks, hdescribed, -, hdims, hiff⟩ :=
    (sizes_agree_iff sampleIndex sampleStamp namesakeTree ["c"] "/c" "a_b" "/r/a_b_c" none () r
      (by decide) (by decide) namesake.found hlocate hr).2 hnew hsteady
  rw [tree_build_namesakeTree] at htable hchunks
  have htold : ¬ 0 < sampleIndex.embedder.dims := by decide
  exact ⟨namesake.found, hlocate, hnew, hsteady, r, hr, store, table, chunks, d, hstore, htable,
    hchunks, hdescribed, hdims, by simpa [htold] using hiff⟩

/-! ### Embedders that do not keep to a size -/

/-- An index whose embedder tells a size, and gives vectors as long as the texts. -/
def lengthIndex (told : Nat) : CodebaseIndex Unit :=
  ⟨"/r", {}, ⟨"lengths", told, fun texts _ =>
    (.ok (texts.map fun text => List.replicate text.length Single.one), ())⟩, .plain⟩

/-- A project with two sources, one longer than the other. -/
def longerTree : Tree :=
  ⟨[(["p"], .directory 0o755), (["p", "a.py"], .file 0o644 (.text "x\n")),
    (["p", "b.py"], .file 0o644 (.text "yes\n"))], []⟩

/-- The size that is noted for the collection at a location, and those of the vectors. -/
def sizesAt (tree : Tree) (location : String) : Option (Option Nat × List Nat) := do
  let store ← Store.open? tree location
  let table ← (store.table tree).toOption
  let chunks ← (store.chunks tree).toOption
  return (table.description.map (·.dims), chunks.map (·.embedding.length))

/-- **Builds that succeed and note another size** than that of a vector that is stored: with an
embedder that tells no size and gives vectors of two, and with one that tells another. -/
theorem sizes_differ :
    ((lengthIndex 0).build sampleStamp longerTree "/p" "x" ()).result.isOk = true ∧
    sizesAt ((lengthIndex 0).build sampleStamp longerTree "/p" "x" ()).tree "/r/x_p" =
      some (some 2, [2, 4]) ∧
    ((lengthIndex 7).build sampleStamp longerTree "/p" "x" ()).result.isOk = true ∧
    sizesAt ((lengthIndex 7).build sampleStamp longerTree "/p" "x" ()).tree "/r/x_p" =
      some (some 7, [2, 4]) := by
  have hsources (told : Nat) : sources (lengthIndex told).languages longerTree ["p"] =
      [⟨["p", "a.py"], "a.py", "py"⟩, ⟨["p", "b.py"], "b.py", "py"⟩] := by
    cbv
  have hlocate (told : Nat) :
      (lengthIndex told).locate longerTree ["p"] "x" = .ok ("/r/x_p", none) := by
    have hplace : Index.location "/r" ["p"] "x" none = "/r/x_p" := by decide +kernel
    rw [locate_eq_of_unkeyed rfl, ← hplace]
    rfl
  have hroot : projectRoot longerTree "/p" = .ok ["p"] := by decide +kernel
  have hnew : longerTree.isThere "/r/x_p" = false := by decide +kernel
  rw [build_eq_of_new hroot (hlocate 0) (hsources 0) hnew,
    build_eq_of_new hroot (hlocate 7) (hsources 7) hnew]
  decide +kernel

end Index.CodebaseIndex

end Workbench
