/-
# Stores are faithful

What is added to a collection is there afterwards, in the order in which it was added, and all
of it: however the chunks come in batches, they are read as they were. What a store finds in a
database that something else wrote is read as the chunks that it is of, or not at all: one
damaged row makes reading fail, wherever it is, and a search in such a collection fails as
well. It never ranks the chunks that can still be read.

* `Store.insertAll` — batches that are added one after the other.
* `Store.Holds.insert_written`, `Store.Holds.insertAll_written` — what one batch and what all
  of them do to the database.
* `Store.faithful` — **what is added is read back, and damage is not passed over**.
-/

import Workbench.Proofs.Collection.Damage
import Workbench.Proofs.Index.Storing

namespace Workbench.Collection

open Workbench.Files Workbench.Files.Tree Workbench.Index Workbench.Vector Workbench.Code

/-! ### Counting -/

theorem StoredChunk.kind_row_eq_iff (c : StoredChunk) (kind : UnitKind) :
    c.row.kind = kind.text ↔ c.kind = kind := by
  constructor
  · intro h
    have hread := kind.ofText?_text
    rw [← h] at hread
    exact Option.some.inj ((c.kind.ofText?_text).symm.trans hread)
  · rintro rfl
    rfl

/-- A database with the rows of chunks added at the end. -/
def Table.adding (t : Table) (cs : List StoredChunk) : Table :=
  { t with rows := t.rows ++ cs.map (·.row) }

theorem Table.adding_adding (t : Table) (cs others : List StoredChunk) :
    (t.adding cs).adding others = t.adding (cs ++ others) := by
  simp only [Table.adding, List.map_append, List.append_assoc]

/-- The rows of chunks are counted as the chunks are. -/
theorem Table.count_adding (t : Table) (cs : List StoredChunk) (kind : UnitKind) :
    (t.adding cs).count kind = t.count kind + cs.countP (·.kind = kind) := by
  have hkinds : (cs.map (·.row)).countP (·.kind == kind.text) = cs.countP (·.kind = kind) := by
    rw [List.countP_map]
    refine List.countP_congr fun c _ => ?_
    simp [c.kind_row_eq_iff kind]
  rw [Table.count, Table.adding, List.countP_append, hkinds, Table.count]

namespace Store

variable {store : Store} {tree made : Tree} {place : Path} {held table : Table} {mode : Nat}
  {location : String} {stamp : Stamp} {d : Description} {t : Table}

/-! ### Batches -/

/-- Adds batches of chunks, one after the other. -/
def insertAll (store : Store) : List (List StoredChunk) → Tree → Except IndexFault Tree
  | [], tree => .ok tree
  | batch :: rest, tree =>
      match store.insert tree batch with
      | .error fault => .error fault
      | .ok tree => insertAll store rest tree

namespace Holds

variable (h : store.Holds tree place held) (hserial : table.serial = held.serial)

include h hserial

theorem table_written : store.table (written tree place mode table) = .ok table := by
  have hread : (written tree place mode table).read (file store.location) =
      .ok (.database table) := by
    rw [Tree.read, stat_eq_ok_iff.mpr ⟨place, h.find_written⟩]
    rfl
  simp only [Store.table, query, h.held, hread, if_pos hserial]

/-- One batch adds its rows at the end. -/
theorem insert_written (batch : List StoredChunk) :
    store.insert (written tree place mode table) batch =
      .ok (written tree place mode (table.adding batch)) := by
  rw [Store.insert, h.update_written hserial]
  rfl

/-- **Batches add their rows one after the other**, as one batch of all of them does. -/
theorem insertAll_written (batches : List (List StoredChunk)) :
    store.insertAll batches (written tree place mode table) =
      .ok (written tree place mode (table.adding batches.flatten)) := by
  induction batches generalizing table with
  | nil => simp [insertAll, Table.adding]
  | cons batch rest ih =>
      have hnext : (table.adding batch).serial = held.serial := hserial
      rw [insertAll, h.insert_written hserial]
      simp only [ih hnext, List.flatten_cons, Table.adding_adding]

end Holds

/-! ### Collections that are made -/

/-- A collection that is made is a hold on what was written for it, with the rows that were in
the database before, if there was one. -/
theorem exists_of_create (h : Store.create tree location stamp d = (.ok store, made)) :
    ∃ ready place mode table, tree.makeDirectoriesTo location = (none, ready) ∧
      store = ⟨location, some table⟩ ∧ made = written ready place mode table ∧
      store.Holds ready place table ∧ table.rows = rowsAt ready location := by
  have hmade := h
  unfold Store.create at h
  split at h
  · cases h
  · next ready hmake =>
      split at h
      · cases h
      · split at h
        · cases h
        · next table hinitial =>
            split at h
            · next after hwrite =>
                obtain ⟨rfl, rfl⟩ : (⟨location, some table⟩ : Store) = store ∧ after = made := by
                  simpa using h
                obtain ⟨place, mode, hwritten, hholds, -⟩ := exists_create hmake hinitial hwrite
                exact ⟨ready, place, mode, table, hmake, rfl, hwritten, hholds,
                  (initial_eq_some hinitial).2⟩
            · cases h

theorem rowsAt_of_databaseAt_eq_none (h : databaseAt tree location = none) :
    rowsAt tree location = [] := by
  rw [rowsAt, h]
  rfl

/-! ### Reading -/

section Reading

variable (ht : store.table tree = .ok t)

include ht

theorem chunks_eq : store.chunks tree = (t.rows.mapM Row.chunk).mapError store.damaged := by
  rw [chunks, ht]
  rfl

theorem counts_eq : store.counts tree = .ok (t.count .file, t.count .definition) := by
  rw [counts, ht]
  rfl

/-- **What is read is all that is stored**: the chunks of which these are the rows. -/
theorem chunks_eq_ok_iff {cs : List StoredChunk} :
    store.chunks tree = .ok cs ↔ t.rows = cs.map (·.row) := by
  rw [chunks_eq ht, Attempt.mapError_eq_ok_iff, mapM_chunk_eq_ok_iff]

/-- **The first damaged row is what reading fails for.** -/
theorem chunks_of_first {good rest : List Row} {bad : Row} (hrows : t.rows = good ++ bad :: rest)
    (hgood : ∀ r ∈ good, r.Sound) (hbad : ¬ bad.Sound) :
    store.chunks tree = .error (store.damaged bad.damage) := by
  rw [chunks_eq ht, hrows, mapM_chunk_of_first hgood hbad]
  rfl

omit ht in
/-- What is told of a damaged row names the collection, the row, and what is wrong with it. -/
theorem message_damaged (r : Row) : (store.damaged r.damage).message =
    "Index build failed: " ++ ("Collection at " ++ store.location ++ " is corrupt (" ++
      r.damageText ++ "); clear it and rebuild") := by
  rw [← r.message_damage]
  rfl

theorem exists_chunks_iff : (∃ cs, store.chunks tree = .ok cs) ↔ ∀ r ∈ t.rows, r.Sound := by
  constructor
  · rintro ⟨cs, h⟩
    rw [chunks_eq_ok_iff ht] at h
    rw [h]
    intro r mem
    obtain ⟨c, -, rfl⟩ := List.mem_map.mp mem
    exact Row.sound_iff.mpr ⟨c, c.chunk_row⟩
  · intro h
    obtain ⟨cs, hcs⟩ := exists_chunks h
    exact ⟨cs, (chunks_eq_ok_iff ht).mpr hcs⟩

/-! ### Reading what was added -/

variable {after : Tree} {cs : List StoredChunk} (hadded : store.table after = .ok (t.adding cs))

include hadded

/-- Chunks that were added are read after what was read before. -/
theorem chunks_adding : store.chunks after = (store.chunks tree).map (· ++ cs) := by
  rw [chunks_eq hadded, chunks_eq ht, Table.adding, List.mapM_append, mapM_chunk_row]
  cases t.rows.mapM Row.chunk with
  | error damage => rfl
  | ok before => rfl

/-- Chunks that were added are counted on top of what was counted before. -/
theorem counts_adding : store.counts after = (store.counts tree).map (fun n =>
    (n.1 + cs.countP (·.kind = .file), n.2 + cs.countP (·.kind = .definition))) := by
  rw [counts_eq hadded, counts_eq ht, Table.count_adding, Table.count_adding]
  rfl

end Reading

/-! ### Searching -/

section Searching

variable {σ : Type} {r : Retriever σ} {query : String} {k : Nat} {state : σ}
  (hstore : r.store = some store) (hk : 0 < k)

include hstore hk

/-- A search fails as reading does. -/
theorem search_of_chunks_eq_error {fault : IndexFault} (h : store.chunks tree = .error fault) :
    r.search tree query k state = (.error fault, state) := by
  simp only [Retriever.search, hstore, h, if_neg (Nat.pos_iff_ne_zero.mp hk)]

/-- What a search ranks are all chunks that are stored. -/
theorem exists_of_search_eq_ok {hits : List Hit}
    (h : (r.search tree query k state).1 = .ok hits) :
    ∃ cs, store.chunks tree = .ok cs ∧
      ((cs = [] ∧ hits = []) ∨ ∃ vector, hits = top vector cs k) := by
  cases hchunks : store.chunks tree with
  | error fault =>
      rw [search_of_chunks_eq_error hstore hk hchunks] at h
      cases h
  | ok cs =>
      refine ⟨cs, rfl, ?_⟩
      simp only [Retriever.search, hstore, hchunks, if_neg (Nat.pos_iff_ne_zero.mp hk)] at h
      cases cs with
      | nil => exact .inl ⟨rfl, (Except.ok.inj h).symm⟩
      | cons c cs =>
          right
          simp only at h
          split at h
          · cases h
          · next vector _ _ => exact ⟨vector, (Except.ok.inj h).symm⟩

end Searching

/-! ### Both together -/

/-- **Stores are faithful.** Whatever batches of chunks are added to a collection that was
made, all of them are added, and they are read after what was read before, in their order and
equal in every field, and counted by their kinds; a collection that was made where there was no
database has nothing else in it. Whatever rows a database holds, they are read as the chunks
that they are the rows of, if every row is sound; otherwise reading is a build failure about
the first that is not, and so is every search for something. A search that succeeds has ranked
all that is stored. -/
theorem faithful :
    (∀ tree location stamp d store made,
      Store.create tree location stamp d = (.ok store, made) →
      ∀ batches : List (List StoredChunk), ∃ after, store.insertAll batches made = .ok after ∧
        store.chunks after = (store.chunks made).map (· ++ batches.flatten) ∧
        store.counts after = (store.counts made).map (fun n =>
          (n.1 + batches.flatten.countP (·.kind = .file),
            n.2 + batches.flatten.countP (·.kind = .definition))) ∧
        (databaseAt (tree.makeDirectoriesTo location).2 location = none →
          store.chunks after = .ok batches.flatten ∧
          store.counts after = .ok (batches.flatten.countP (·.kind = .file),
            batches.flatten.countP (·.kind = .definition)))) ∧
    ∀ (store : Store) (tree : Tree) (t : Table), store.table tree = .ok t →
      (∀ cs, store.chunks tree = .ok cs ↔ t.rows = cs.map (·.row)) ∧
      ((∃ cs, store.chunks tree = .ok cs) ↔ ∀ r ∈ t.rows, r.Sound) ∧
      (¬ (∀ r ∈ t.rows, r.Sound) →
        ∃ good bad rest, t.rows = good ++ bad :: rest ∧ (∀ r ∈ good, r.Sound) ∧ ¬ bad.Sound ∧
          store.chunks tree = .error (store.damaged bad.damage) ∧
          (store.damaged bad.damage).kind = "BuildFailure" ∧
          (store.damaged bad.damage).message = "Index build failed: " ++ ("Collection at " ++
            store.location ++ " is corrupt (" ++ bad.damageText ++ "); clear it and rebuild") ∧
          ∀ (σ : Type) (r : Retriever σ) query k state, r.store = some store → 0 < k →
            r.search tree query k state = (.error (store.damaged bad.damage), state)) ∧
      ∀ (σ : Type) (r : Retriever σ) query k state hits, r.store = some store → 0 < k →
        (r.search tree query k state).1 = .ok hits →
        ∃ cs, t.rows = cs.map (·.row) ∧
          ((cs = [] ∧ hits = []) ∨ ∃ vector, hits = top vector cs k) := by
  constructor
  · intro tree location stamp d store made h batches
    obtain ⟨ready, place, mode, table, hmake, hstore, rfl, hholds, hrows⟩ := exists_of_create h
    have hafter : store.insertAll batches (written ready place mode table) =
        .ok (written ready place mode (table.adding batches.flatten)) :=
      hholds.insertAll_written rfl batches
    have hbefore : store.table (written ready place mode table) = .ok table :=
      hholds.table_written rfl
    have hnow : store.table (written ready place mode (table.adding batches.flatten)) =
        .ok (table.adding batches.flatten) := hholds.table_written rfl
    have hchunks := chunks_adding hbefore hnow
    have hcounts := counts_adding hbefore hnow
    refine ⟨_, hafter, hchunks, hcounts, ?_⟩
    intro hnone
    rw [hmake] at hnone
    have hempty : table.rows = [] := hrows.trans (rowsAt_of_databaseAt_eq_none hnone)
    have hnothing : store.chunks (written ready place mode table) = .ok [] :=
      (chunks_eq_ok_iff hbefore).mpr hempty
    rw [hchunks, hcounts, hnothing, counts_eq hbefore, Table.count, Table.count, hempty]
    exact ⟨rfl, by simp [Except.map]⟩
  · intro store tree t ht
    refine ⟨fun cs => chunks_eq_ok_iff ht, exists_chunks_iff ht, ?_, ?_⟩
    · intro hdamaged
      obtain ⟨good, bad, rest, hrows, hgood, hbad⟩ :=
        (sound_or_exists_first t.rows).resolve_left hdamaged
      have hfails := chunks_of_first ht hrows hgood hbad
      refine ⟨good, bad, rest, hrows, hgood, hbad, hfails, rfl, message_damaged bad, ?_⟩
      intro σ r query k state hstore hk
      exact search_of_chunks_eq_error hstore hk hfails
    · intro σ r query k state hits hstore hk hhits
      obtain ⟨cs, hcs, hranked⟩ := exists_of_search_eq_ok hstore hk hhits
      exact ⟨cs, (chunks_eq_ok_iff ht).mp hcs, hranked⟩

/-- A database with three rows, of which the second and the third are damaged. -/
def damagedTable : Table :=
  ⟨0, none, [⟨"a.py", "file", none, 0, 0, "x = 1\n", [0, 0, 128, 63]⟩,
    ⟨"b.py", "class", none, -1, 0, "y = 1\n", [0, 0, 128]⟩,
    ⟨"c.py", "class", none, 0, 0, "z = 1\n", []⟩]⟩

/-- A directory with that database in it. -/
def damagedTree : Tree :=
  ⟨[(["c"], .directory 0o755), (["c", "index.db"], .file 0o644 (.database damagedTable))], []⟩

/-- A chunk of a definition. -/
def sampleChunk : StoredChunk :=
  ⟨"a.py", some "f", .definition, 0, 0, "x = 1\n", [.one]⟩

/-- The collection is refused for its second row; one that is made beside it has in it what is
added to it. -/
theorem faithful_damagedTree :
    let store : Store := ⟨"/c", some damagedTable⟩
    let made := Store.create damagedTree "/new" ⟨1, ""⟩ ⟨"", "", "", 0, ""⟩
    let new : Store := ⟨"/new", some ⟨1, some ⟨"", "", "", 0, ""⟩, []⟩⟩
    (store.table damagedTree = .ok damagedTable ∧ ¬ (∀ r ∈ damagedTable.rows, r.Sound) ∧
      ∃ row, store.chunks damagedTree = .error (store.damaged (Row.damage row))) ∧
    made.1 = .ok new ∧ databaseAt (damagedTree.makeDirectoriesTo "/new").2 "/new" = none ∧
    ∃ after, new.insertAll [[sampleChunk], [sampleChunk, sampleChunk]] made.2 = .ok after ∧
      new.chunks after = .ok [sampleChunk, sampleChunk, sampleChunk] ∧
      new.counts after = .ok (0, 3) := by
  intro store made new
  obtain ⟨hcreated, hread⟩ := faithful
  have ht : store.table damagedTree = .ok damagedTable := by decide +kernel
  have hdamaged : ¬ ∀ r ∈ damagedTable.rows, r.Sound := by decide
  obtain ⟨-, -, hrefused, -⟩ := hread store damagedTree damagedTable ht
  obtain ⟨good, bad, rest, -, -, -, hfails, -⟩ := hrefused hdamaged
  have hmade : made.1 = .ok new := by decide +kernel
  have hnone : databaseAt (damagedTree.makeDirectoriesTo "/new").2 "/new" = none := by
    decide +kernel
  obtain ⟨after, hafter, -, -, hempty⟩ := hcreated damagedTree "/new" _ _ new made.2
    (Prod.ext hmade rfl) [[sampleChunk], [sampleChunk, sampleChunk]]
  obtain ⟨hchunks, hcounts⟩ := hempty hnone
  exact ⟨⟨ht, hdamaged, bad, hfails⟩, hmade, hnone, after, hafter, hchunks, hcounts⟩

end Store

end Workbench.Collection
