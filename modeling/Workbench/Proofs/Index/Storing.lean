/-
# What is stored

A store changes the database at one place and nothing else (`Store.update_written`). So a
build that has stored some chunks leaves the tree as it was with a database in it that
holds them (`CodebaseIndex.Stored`): every group of chunks makes them more by that group,
every batch of sources by the chunks of those sources, and the size of the vectors is
noted with the first of them all, whichever the embedder gave (`CodebaseIndex.noteDims_with`).

* `CodebaseIndex.ends_storeGroup`, `CodebaseIndex.ends_storeBatch` — what one group and one
  batch do.
* `CodebaseIndex.exists_buildInto` — **what a build stores**, in whichever groups and batches.
-/

import Workbench.Proofs.Files.Written
import Workbench.Proofs.Files.Rewriting
import Workbench.Proofs.Index.Batching

namespace Workbench

open Workbench.Files Workbench.Files.Tree Workbench.Vector Workbench.Collection Workbench.Index
  Workbench.Code

/-! ### One database -/

namespace Collection.Store

/-- The tree with a database at a place. -/
def written (tree : Tree) (place : Path) (mode : Nat) (table : Table) : Tree :=
  tree.put place (.file mode (.database table))

/-- The rows of the database in a directory; none if there is no database. -/
def rowsAt (tree : Tree) (location : String) : List Row :=
  ((databaseAt tree location).map (·.rows)).getD []

/-- A store is a hold on the database that is written at a place. -/
structure Holds (store : Store) (tree : Tree) (place : Path) (held : Table) : Prop where
  held : store.held = some held
  found : tree.find true (file store.location) = .ok ⟨place, tree.get? place⟩
  free : ∀ old, tree.get? place = some old → old.isFile = true

variable {store : Store} {tree : Tree} {place : Path} {held table : Table} {mode : Nat}

namespace Holds

theorem ne_nil (h : store.Holds tree place held) : place ≠ [] := by
  rintro rfl
  simpa [Entry.isFile] using h.free _ (get?_nil tree)

theorem find_written (h : store.Holds tree place held) :
    (written tree place mode table).find true (file store.location) =
      .ok ⟨place, some (.file mode (.database table))⟩ := by
  obtain ⟨hgiven, hleads⟩ := find_eq_ok_iff.mp h.found
  have hput : (written tree place mode table).Leads true linkLimit _ _ _ :=
    hleads.put h.ne_nil h.free (by simp)
  rw [get?_put_self tree h.ne_nil] at hput
  exact find_eq_ok_iff.mpr ⟨hgiven, hput⟩

theorem read_written (h : store.Holds tree place held) :
    (written tree place mode table).read (file store.location) = .ok (.database table) := by
  rw [Tree.read, stat_eq_ok_iff.mpr ⟨place, h.find_written⟩]
  rfl

theorem databaseAt_written (h : store.Holds tree place held) :
    databaseAt (written tree place mode table) store.location = some table := by
  rw [databaseAt, h.read_written]

/-- **A change of the database** changes nothing else. -/
theorem update_written (h : store.Holds tree place held) (hserial : table.serial = held.serial)
    (name : String) (change : Table → Table) :
    store.update (written tree place mode table) name change =
      .ok (written tree place mode (change table)) := by
  have hwrite : (written tree place mode table).write (file store.location)
      (.database (change table)) = .ok (written tree place mode (change table)) := by
    refine write_eq_ok_iff.mpr (.inl ⟨place, mode, _, h.find_written, ?_⟩)
    rw [written, written, put_put]
  have hquery : store.query (written tree place mode table) name = .ok table := by
    simp [query, h.held, h.read_written, hserial]
  simp [update, hquery, h.held, h.databaseAt_written, hserial, hwrite]

end Holds

section Found

variable {location : String}
  (hfind : tree.find true (file location) = .ok ⟨place, some (.file mode (.database table))⟩)

include hfind

/-- A database that is found is held by whoever opens it. -/
theorem open?_eq : Store.open? tree location = some ⟨location, some table⟩ := by
  have hstat := stat_eq_ok_iff.mpr ⟨place, hfind⟩
  have hread : tree.read (file location) = .ok (.database table) := by
    rw [Tree.read, hstat]
    rfl
  rw [Store.open?, hstat, databaseAt, hread]

theorem query_eq (name : String) : Store.query ⟨location, some table⟩ tree name = .ok table := by
  have hread : tree.read (file location) = .ok (.database table) := by
    rw [Tree.read, stat_eq_ok_iff.mpr ⟨place, hfind⟩]
    rfl
  simp [query, hread]

theorem table_eq : Store.table ⟨location, some table⟩ tree = .ok table :=
  query_eq hfind chunkTable

end Found

/-- A database is described anew, and its rows stay what they are. -/
theorem initial_eq_some {location : String} {stamp : Stamp} {d : Description}
    (h : initial stamp d (tree.read (file location)).toOption = some table) :
    table.description = some d ∧ table.rows = rowsAt tree location := by
  unfold rowsAt databaseAt
  cases hread : tree.read (file location) with
  | error fault =>
      obtain rfl : _ = table := by simpa [hread, Except.toOption, initial] using h
      exact ⟨rfl, rfl⟩
  | ok content =>
      cases content with
      | text s =>
          by_cases hempty : s = ""
          · obtain rfl : _ = table := by simpa [hread, hempty, Except.toOption, initial] using h
            exact ⟨rfl, rfl⟩
          · simp [hread, hempty, Except.toOption, initial] at h
      | raw bytes => simp [hread, Except.toOption, initial] at h
      | database old =>
          obtain rfl : _ = table := by simpa [hread, Except.toOption, initial] using h
          exact ⟨rfl, rfl⟩

/-- **A store is made** by writing a database into a directory. -/
theorem exists_create {location : String} {stamp : Stamp} {d : Description} {ready made : Tree}
    (hmake : tree.makeDirectoriesTo location = (none, ready))
    (hinitial : initial stamp d (ready.read (file location)).toOption = some table)
    (hwrite : ready.write (file location) (.database table) = .ok made) :
    ∃ place mode, made = written ready place mode table ∧
      Holds ⟨location, some table⟩ ready place table ∧
      Store.create tree location stamp d = (.ok ⟨location, some table⟩, made) := by
  have hcreate (hread : ready.read (file location) ≠ .error .isDirectory) :
      Store.create tree location stamp d = (.ok ⟨location, some table⟩, made) := by
    unfold Store.create
    rw [hmake]
    simp only [hinitial, hwrite]
  rcases write_eq_ok_iff.mp hwrite with ⟨place, mode, old, hfind, rfl⟩ | ⟨place, hfind, rfl⟩
  · have hentry : ready.get? place = some (.file mode old) := (find_eq_ok_iff.mp hfind).2.entry_eq
    refine ⟨place, mode, rfl, ⟨rfl, hentry ▸ hfind, ?_⟩, hcreate ?_⟩
    · intro found hfound
      obtain rfl : .file mode old = found := by simpa [hentry] using hfound
      rfl
    · simp [Tree.read, stat_eq_ok_iff.mpr ⟨place, hfind⟩]
  · have hentry : ready.get? place = none := (find_eq_ok_iff.mp hfind).2.entry_eq
    refine ⟨place, fileMode, rfl, ⟨rfl, hentry ▸ hfind, by simp [hentry]⟩, hcreate ?_⟩
    simp [Tree.read, stat, hfind]

end Collection.Store

namespace Index

open Workbench.Collection.Store

variable {σ : Type} {ix : CodebaseIndex σ} {f : String → Embedding}

/-! ### What chunks become -/

/-- The row of a chunk whose text has a known vector. -/
def PendingChunk.row (f : String → Embedding) (c : PendingChunk) : Row :=
  (c.stored (f c.text)).row

namespace CodebaseIndex

/-- The size of the vectors that is noted: the one that the embedder tells, or that of the
first vector. -/
def sizeNoted (ix : CodebaseIndex σ) (vectors : List Embedding) : Nat :=
  if 0 < ix.embedder.dims then ix.embedder.dims
  else (vectors.head?.map List.length).getD 0

/-- The database with chunks added to it that have these vectors. -/
def tableWith (ix : CodebaseIndex σ) (table : Table) (chunks : List PendingChunk)
    (vectors : List Embedding) : Table :=
  { table with
    description := table.description.map ({ · with dims := ix.sizeNoted vectors })
    rows := table.rows ++ (List.zipWith PendingChunk.stored chunks vectors).map (·.row) }

/-- The size of the vectors as it is noted once some chunks are stored. -/
def dimsAfter (ix : CodebaseIndex σ) (f : String → Embedding) (chunks : List PendingChunk) : Nat :=
  match chunks with
  | first :: _ => if 0 < ix.embedder.dims then ix.embedder.dims else (f first.text).length
  | [] => ix.embedder.dims

/-- The database with the rows of chunks added. -/
def tableAfter (ix : CodebaseIndex σ) (f : String → Embedding) (table : Table)
    (chunks : List PendingChunk) : Table :=
  { table with
    description := table.description.map ({ · with dims := ix.dimsAfter f chunks })
    rows := table.rows ++ chunks.map (·.row f) }

/-- A source with a given text is read: its language is known, and the grammar is of use. -/
def Parses (ix : CodebaseIndex σ) (content : Source → String) (s : Source) : Prop :=
  ∃ language, ix.languages.get? s.extension = some language ∧
    language.fault? s.path (content s).toList = none

/-- The chunks of a source with a given text. -/
def sourceChunks (ix : CodebaseIndex σ) (content : Source → String) (s : Source) :
    List PendingChunk :=
  match ix.languages.get? s.extension with
  | some language => ix.chunksOf language s.path (content s)
  | none => []

/-- A build under way has stored some chunks in a database, and has changed nothing else. -/
structure Stored (ix : CodebaseIndex σ) (f : String → Embedding) (ready : Tree) (place : Path)
    (mode : Nat) (table : Table) (chunks : List PendingChunk) (p : Progress σ) : Prop where
  tree : p.tree = written ready place mode (ix.tableAfter f table chunks)
  noted : p.noted = (decide (0 < ix.embedder.dims) || !chunks.isEmpty)

variable {store : Store} {ready : Tree} {place : Path} {mode : Nat} {table : Table}
  {sofar chunks : List PendingChunk} {vectors : List Embedding} {p : Progress σ}

/-! ### The size of the vectors -/

/-- A size that is noted does not change with more vectors. -/
theorem sizeNoted_append (h : (decide (0 < ix.embedder.dims) || !vectors.isEmpty) = true)
    (found : List Embedding) : ix.sizeNoted (vectors ++ found) = ix.sizeNoted vectors := by
  cases vectors with
  | cons first rest => rfl
  | nil =>
      have hdims : 0 < ix.embedder.dims := by simpa using h
      simp [sizeNoted, hdims]

/-- **The size is noted with the first vector**, whichever it has, and only then. -/
theorem noteDims_with (hholds : store.Holds ready place table)
    (htree : p.tree = written ready place mode (ix.tableWith table sofar vectors))
    (hnoted : p.noted = (decide (0 < ix.embedder.dims) || !vectors.isEmpty))
    (found : List Embedding) :
    noteDims store p found =
      .ok ⟨written ready place mode { ix.tableWith table sofar vectors with
          description := table.description.map
            ({ · with dims := ix.sizeNoted (vectors ++ found) }) }, p.state,
        decide (0 < ix.embedder.dims) || !(vectors ++ found).isEmpty⟩ := by
  obtain ⟨before, state, noted⟩ := p
  obtain ⟨rfl, rfl⟩ : before = _ ∧ noted = _ := ⟨htree, hnoted⟩
  cases found with
  | nil => simp [noteDims, tableWith]
  | cons first rest =>
      cases hnoted : decide (0 < ix.embedder.dims) || !vectors.isEmpty with
      | true =>
          have hsize := sizeNoted_append hnoted (first :: rest)
          simp [noteDims, tableWith, hsize]
      | false =>
          obtain ⟨hdims, rfl⟩ : ix.embedder.dims = 0 ∧ vectors = [] := by simpa using hnoted
          simp [noteDims, setDims, hholds.update_written, tableWith, sizeNoted, hdims,
            Function.comp_def]

/-! ### One group of chunks -/

theorem zipWith_stored (f : String → Embedding) (chunks : List PendingChunk) :
    (List.zipWith PendingChunk.stored chunks ((chunks.map (·.text)).map f)).map (·.row) =
      chunks.map (·.row f) := by
  rw [List.map_map, List.zipWith_map_right, List.zipWith_self, List.map_map]
  rfl

/-- Chunks are added to whatever the database holds. -/
theorem insert_stored (hholds : store.Holds ready place table) {held : Table}
    (hserial : held.serial = table.serial) (f : String → Embedding) (chunks : List PendingChunk) :
    store.insert (written ready place mode held)
        (List.zipWith PendingChunk.stored chunks ((chunks.map (·.text)).map f)) =
      .ok (written ready place mode { held with rows := held.rows ++ chunks.map (·.row f) }) := by
  rw [Store.insert, hholds.update_written hserial, zipWith_stored]

/-- The size that is noted with some chunks is that of the vectors of their texts. -/
theorem dimsAfter_eq_sizeNoted (f : String → Embedding) (chunks : List PendingChunk) :
    ix.dimsAfter f chunks = ix.sizeNoted ((chunks.map (·.text)).map f) := by
  cases chunks with
  | nil =>
      by_cases hdims : 0 < ix.embedder.dims
      · simp [dimsAfter, sizeNoted, hdims]
      · simp [dimsAfter, sizeNoted, Nat.eq_zero_of_not_pos hdims]
  | cons first rest => simp [dimsAfter, sizeNoted]

theorem tableAfter_eq_tableWith (f : String → Embedding) (table : Table)
    (chunks : List PendingChunk) :
    ix.tableAfter f table chunks = ix.tableWith table chunks ((chunks.map (·.text)).map f) := by
  simp only [tableAfter, tableWith, dimsAfter_eq_sizeNoted, zipWith_stored]

/-- The size of the vectors is noted with the first of them, and only then. -/
theorem noteDims_stored (hholds : store.Holds ready place table)
    (h : ix.Stored f ready place mode table sofar p) (chunks : List PendingChunk) :
    noteDims store p ((chunks.map (·.text)).map f) =
      .ok ⟨written ready place mode { ix.tableAfter f table sofar with
          description := (ix.tableAfter f table (sofar ++ chunks)).description }, p.state,
        decide (0 < ix.embedder.dims) || !(sofar ++ chunks).isEmpty⟩ := by
  have hempty (chunks : List PendingChunk) :
      ((chunks.map (·.text)).map f).isEmpty = chunks.isEmpty := by
    simp
  have htree : p.tree = written ready place mode
      (ix.tableWith table sofar ((sofar.map (·.text)).map f)) :=
    h.tree.trans (by rw [tableAfter_eq_tableWith])
  have hnoted : p.noted =
      (decide (0 < ix.embedder.dims) || !((sofar.map (·.text)).map f).isEmpty) :=
    h.noted.trans (by rw [hempty])
  rw [noteDims_with hholds htree hnoted, ← List.map_append, ← List.map_append, hempty,
    ← dimsAfter_eq_sizeNoted, ← tableAfter_eq_tableWith]
  rfl

/-- **A group of chunks is stored** with the vectors of its texts. -/
theorem ends_storeGroup (hholds : store.Holds ready place table)
    (hembed : ∀ texts state, (ix.embedder.embed texts state).1 = .ok (texts.map f))
    (h : ix.Stored f ready place mode table sofar p) :
    Ends (ix.Stored f ready place mode table (sofar ++ chunks))
      (ix.storeGroup store p chunks) := by
  have hcall := hembed (chunks.map (·.text)) p.state
  unfold storeGroup
  generalize ix.embedder.embed (chunks.map (·.text)) p.state = answer at hcall
  obtain ⟨result, state⟩ := answer
  obtain rfl : result = .ok ((chunks.map (·.text)).map f) := hcall
  have hnext : ix.Stored f ready place mode table sofar { p with state } := ⟨h.tree, h.noted⟩
  simp only [List.length_map, ne_eq, not_true_eq_false, if_false, noteDims_stored hholds hnext]
  have hserial : ({ ix.tableAfter f table sofar with
      description := (ix.tableAfter f table (sofar ++ chunks)).description } : Table).serial =
        table.serial := rfl
  rw [insert_stored hholds hserial]
  refine ⟨rfl, ?_, rfl⟩
  simp [tableAfter]

/-! ### One batch of sources -/

section Batch

variable {content : Source → String} {tree : Tree} {files : List Source}

/-- What is chunked is a source that could be read, as a file and by its grammar. -/
theorem chunkSource_eq_ok_iff {s : Source} {chunks : List PendingChunk} :
    ix.chunkSource tree s = .ok chunks ↔ ∃ text language, s.read tree = .ok text ∧
      ix.languages.get? s.extension = some language ∧
      language.fault? s.path text.toList = none ∧ chunks = ix.chunksOf language s.path text := by
  unfold chunkSource
  cases htext : s.read tree with
  | error fault => simp [Except.mapError]
  | ok text =>
      cases hget : ix.languages.get? s.extension with
      | none => simp
      | some language =>
          cases hfault : language.fault? s.path text.toList with
          | some fault => simp [hfault]
          | none => simp [hfault, eq_comm]

theorem chunkBatch_cons (tree : Tree) (s : Source) (files : List Source) :
    ix.chunkBatch tree (s :: files) = (do
      let own ← ix.chunkSource tree s
      let more ← ix.chunkBatch tree files
      return own ++ more) := by
  rw [chunkBatch, List.mapM_cons]
  cases ix.chunkSource tree s with
  | error fault => rfl
  | ok own =>
      simp only [chunkBatch, Attempt.ok_bind]
      cases files.mapM (ix.chunkSource tree) <;> rfl

/-- The chunks of a batch are those of its sources. -/
theorem chunkBatch_eq (hparses : ∀ s ∈ files, ix.Parses content s)
    (hread : ∀ s ∈ files, s.read tree = .ok (content s)) :
    ix.chunkBatch tree files = .ok (files.flatMap (ix.sourceChunks content)) := by
  have hall : files.mapM (ix.chunkSource tree) = .ok (files.map (ix.sourceChunks content)) := by
    rw [Attempt.mapM_eq_ok_iff, List.map_map]
    refine List.map_congr_left fun s mem => ?_
    obtain ⟨language, hget, hfault⟩ := hparses s mem
    refine chunkSource_eq_ok_iff.mpr ⟨content s, language, hread s mem, hget, hfault, ?_⟩
    rw [sourceChunks, hget]
  rw [chunkBatch, hall, List.flatMap_def]
  rfl

/-- **A batch of sources is stored**, in whichever groups. -/
theorem ends_storeBatch
    (hembed : ∀ texts state, (ix.embedder.embed texts state).1 = .ok (texts.map f))
    (hholds : store.Holds ready place table)
    (hparses : ∀ s ∈ files, ix.Parses content s)
    (hread : ∀ held, ∀ s ∈ files, s.read (written ready place mode held) = .ok (content s))
    (h : ix.Stored f ready place mode table sofar p) :
    Ends
      (ix.Stored f ready place mode table (sofar ++ files.flatMap (ix.sourceChunks content)))
      (ix.storeBatch store p files) := by
  let parts := groups ix.settings.embedBatchSize (files.flatMap (ix.sourceChunks content))
  have hall : Ends (ix.Stored f ready place mode table (sofar ++ parts.flatMap id))
      (steps (ix.storeGroup store) parts p) :=
    ends_steps (fun part _ sofar p hp => ends_storeGroup hholds hembed hp) h
  rw [List.flatMap_id, flatten_groups] at hall
  simpa only [storeBatch, h.tree ▸ chunkBatch_eq hparses (hread _)] using hall

end Batch

/-! ### A whole build -/

/-- **A build stores the chunks of all sources**, one after the other, in whichever
batches; what was in the database before stays there. -/
theorem exists_buildInto {content : Source → String} {stamp : Stamp} {directory : String}
    {root : Path} {collection : String} {files : List Source} {tree ready made : Tree}
    (hembed : ∀ texts state, (ix.embedder.embed texts state).1 = .ok (texts.map f))
    (hparses : ∀ s ∈ files, ix.Parses content s)
    (hmake : tree.makeDirectoriesTo directory = (none, ready))
    (hinitial : initial stamp (ix.describe root collection stamp)
      (ready.read (file directory)).toOption = some table)
    (hwrite : ready.write (file directory) (.database table) = .ok made)
    (hread : ∀ place mode held, Holds ⟨directory, some table⟩ ready place table →
      ∀ s ∈ files, s.read (written ready place mode held) = .ok (content s)) (state : σ) :
    ∃ place mode final, Holds ⟨directory, some table⟩ ready place table ∧
      table.rows = rowsAt ready directory ∧
      ix.buildInto stamp directory root collection files tree state = (.ok (),
        written ready place mode
          (ix.tableAfter f table (files.flatMap (ix.sourceChunks content))), final) := by
  obtain ⟨place, mode, rfl, hholds, hcreate⟩ := exists_create hmake hinitial hwrite
  have hstart : ix.Stored f ready place mode table []
      ⟨written ready place mode table, state, decide (0 < ix.embedder.dims)⟩ := by
    refine ⟨?_, by simp⟩
    have hdescription := (initial_eq_some hinitial).1
    obtain ⟨serial, description, rows⟩ := table
    obtain rfl : description = _ := hdescription
    simp [tableAfter, dimsAfter, describe]
  have hall : Ends (ix.Stored f ready place mode table
      ([] ++ (groups ix.settings.fileBatchSize files).flatMap fun batch =>
        batch.flatMap (ix.sourceChunks content)))
      (steps (ix.storeBatch ⟨directory, some table⟩) (groups ix.settings.fileBatchSize files)
        ⟨written ready place mode table, state, decide (0 < ix.embedder.dims)⟩) :=
    ends_steps (fun batch hbatch sofar p hp => ends_storeBatch hembed hholds
      (fun s hs => hparses s (mem_of_mem_groups hbatch hs))
      (fun held s hs => hread place mode held hholds s (mem_of_mem_groups hbatch hs)) hp) hstart
  rw [List.nil_append, ← List.flatMap_assoc, List.flatMap_id', flatten_groups] at hall
  simp only [buildInto, hcreate]
  cases hsteps : steps (ix.storeBatch ⟨directory, some table⟩)
      (groups ix.settings.fileBatchSize files) ⟨written ready place mode table, state, decide (0 < ix.embedder.dims)⟩ with
  | mk answer p =>
      obtain ⟨rfl, htree, -⟩ := hsteps ▸ hall
      exact ⟨place, mode, p.state, hholds, (initial_eq_some hinitial).2, by rw [← htree]⟩

end CodebaseIndex

end Index

end Workbench
