/-
# How a build ends

A store writes to one database and to nothing else, whatever the embedder answers, and what
the database is described by stays (`CodebaseIndex.buildInto_cases`). So a build that has begun
can only end in few ways (`CodebaseIndex.Ended`): it is blocked by what lies where it is to
build, it cannot make the directory, it gives up and takes away what it has made, or it moves
the collection to its place.

* `CodebaseIndex.ended_buildNew` — **how a build ends.**
* `CodebaseIndex.Ended.within` — a build takes away only what lay where it builds.
* `CodebaseIndex.buildNew_restart` — a build that gave up leaves the next one as it was.
-/

import Workbench.Proofs.Index.Begun
import Workbench.Proofs.Index.Sources

namespace Workbench

open Workbench.Files Workbench.Files.Tree Workbench.Collection Workbench.Index Workbench.Vector

/-! ### A database that is filled -/

namespace Collection.Store

variable {store : Store} {ready tree : Tree} {place : Path} {mode : Nat} {held table : Table}

/-- There is a database at a place of which something is true, and nothing else has changed. -/
def Filled (P : Table → Prop) (ready : Tree) (place : Path) (mode : Nat) (tree : Tree) : Prop :=
  ∃ table, tree = written ready place mode table ∧ P table

/-- There is a database at a place, whatever is in it, and nothing else has changed. -/
def Filling (ready : Tree) (place : Path) (mode serial : Nat) (tree : Tree) : Prop :=
  ∃ table, tree = written ready place mode table ∧ table.serial = serial

/-- What stays true of a database when the size of its vectors is noted and rows are added. -/
structure Lasting (P : Table → Prop) (serial : Nat) : Prop where
  serial_eq : ∀ table, P table → table.serial = serial
  noted : ∀ table dims, P table →
    P { table with description := table.description.map ({ · with dims }) }
  added : ∀ table rows, P table → P { table with rows := table.rows ++ rows }

theorem lasting_serial (serial : Nat) : Lasting (·.serial = serial) serial :=
  ⟨fun _ h => h, fun _ _ h => h, fun _ _ h => h⟩

/-- A database is described in a way, but for the size of its vectors. -/
def Described (d : Description) (table : Table) : Prop :=
  ∃ dims, table.description = some { d with dims }

/-- While a database is filled it stays described as it was. -/
theorem lasting_described (d : Description) (serial : Nat) :
    Lasting (fun table => table.serial = serial ∧ Described d table) serial := by
  constructor
  · exact fun table h => h.1
  · rintro table dims ⟨hserial, old, hold⟩
    exact ⟨hserial, dims, by simp [hold]⟩
  · exact fun table rows h => h

/-- A change of the database leaves everything else alone. -/
theorem Filled.update {P : Table → Prop} (h : Filled P ready place mode tree)
    (hlasting : Lasting P held.serial) (hholds : store.Holds ready place held)
    {queried : String} {change : Table → Table} {after : Tree}
    (hupdate : store.update tree queried change = .ok after)
    (hchange : ∀ table, P table → P (change table)) : Filled P ready place mode after := by
  obtain ⟨table, rfl, htable⟩ := h
  rw [hholds.update_written (hlasting.serial_eq table htable)] at hupdate
  obtain rfl := Except.ok.inj hupdate
  exact ⟨change table, rfl, hchange table htable⟩

/-- A store is made by making its directory and writing a database into it. -/
theorem create_cases {tree ready : Tree} {location : String} (stamp : Stamp) (d : Description)
    (hmake : tree.makeDirectoriesTo location = (none, ready)) :
    (∃ fault, Store.create tree location stamp d = (.error (.storage fault), ready)) ∨
    ∃ place mode table, Holds ⟨location, some table⟩ ready place table ∧
      table.description = some d ∧
      Store.create tree location stamp d =
        (.ok ⟨location, some table⟩, written ready place mode table) := by
  cases hinitial : initial stamp d (ready.read (file location)).toOption with
  | none =>
      left
      unfold Store.create
      rw [hmake]
      dsimp only
      split
      · exact ⟨_, rfl⟩
      · rw [hinitial]
        exact ⟨_, rfl⟩
  | some table =>
      cases hwrite : ready.write (file location) (.database table) with
      | error fault =>
          left
          unfold Store.create
          rw [hmake]
          dsimp only
          split
          · exact ⟨_, rfl⟩
          · rw [hinitial]
            simp only [hwrite]
            exact ⟨_, rfl⟩
      | ok made =>
          obtain ⟨place, mode, rfl, hholds, hcreate⟩ := exists_create hmake hinitial hwrite
          exact .inr ⟨place, mode, table, hholds, (initial_eq_some hinitial).1, hcreate⟩

end Collection.Store

namespace Index.CodebaseIndex

open Workbench.Collection.Store

variable {σ : Type} {ix : CodebaseIndex σ} {store : Store} {tree cleared ready mid : Tree}
  {place base : Path} {mode : Nat} {held : Table} {location collection directory : String}
  {dir : List String} {name : String}

section Filling

variable {P : Table → Prop} (ix : CodebaseIndex σ) (hlasting : Lasting P held.serial)
  (hholds : store.Holds ready place held)

include hlasting hholds

theorem filled_noteDims {p after : Progress σ} {vectors : List Embedding}
    (hnote : noteDims store p vectors = .ok after) (h : Filled P ready place mode p.tree) :
    Filled P ready place mode after.tree := by
  unfold noteDims at hnote
  split at hnote
  · obtain ⟨noted, hset, hafter⟩ := Attempt.bind_eq_ok_iff.mp hnote
    obtain rfl := Except.ok.inj hafter
    exact h.update hlasting hholds hset fun table htable => hlasting.noted table _ htable
  · obtain rfl := Except.ok.inj hnote
    exact h

/-- Whatever the embedder answers, only the database changes. -/
theorem filled_storeGroup {p : Progress σ} (chunks : List PendingChunk)
    (h : Filled P ready place mode p.tree) :
    Filled P ready place mode (ix.storeGroup store p chunks).2.tree := by
  unfold storeGroup
  split
  · exact h
  · next vectors state _ =>
      by_cases hcount : vectors.length ≠ chunks.length
      · simpa [hcount] using h
      · simp only [hcount, if_false]
        split
        · exact h
        · next noted hnote =>
            have hnoted := filled_noteDims hlasting hholds hnote h
            split
            · exact hnoted
            · next after hinsert =>
                exact hnoted.update hlasting hholds hinsert fun table htable =>
                  hlasting.added table _ htable

theorem filled_storeBatch {p : Progress σ} (files : List Source)
    (h : Filled P ready place mode p.tree) :
    Filled P ready place mode (ix.storeBatch store p files).2.tree := by
  unfold storeBatch
  split
  · exact h
  · exact steps_kept (fun p : Progress σ => Filled P ready place mode p.tree)
      (fun chunks _ p => filled_storeGroup ix hlasting hholds chunks) h

end Filling

theorem filling_storeBatch (ix : CodebaseIndex σ) (hholds : store.Holds ready place held)
    {p : Progress σ} (files : List Source) (h : Filling ready place mode held.serial p.tree) :
    Filling ready place mode held.serial (ix.storeBatch store p files).2.tree :=
  filled_storeBatch ix (lasting_serial held.serial) hholds files h

/-- A collection is built by writing to one database, which stays described as it was. -/
theorem buildInto_cases (ix : CodebaseIndex σ) (stamp : Stamp) (root : Path) (collection : String)
    (files : List Source) (state : σ)
    (hmake : tree.makeDirectoriesTo directory = (none, ready)) :
    (∃ fault, ix.buildInto stamp directory root collection files tree state =
      (.error (.storage fault), ready, state)) ∨
    ∃ (store : Store) (place : Path) (mode : Nat) (held table : Table),
      store.location = directory ∧ store.Holds ready place held ∧
      (ix.buildInto stamp directory root collection files tree state).2.1 =
        written ready place mode table ∧
      Described (ix.describe root collection stamp) table := by
  unfold buildInto
  rcases create_cases stamp (ix.describe root collection stamp) hmake with
    ⟨fault, hcreate⟩ | ⟨place, mode, held, hholds, hdescription, hcreate⟩
  · exact .inl ⟨fault, by rw [hcreate]⟩
  · refine .inr ⟨⟨directory, some held⟩, place, mode, held, ?_⟩
    have hdescribed : Described (ix.describe root collection stamp) held := ⟨_, hdescription⟩
    simp only [hcreate]
    let P : Table → Prop := fun table =>
      table.serial = held.serial ∧ Described (ix.describe root collection stamp) table
    let start : Progress σ :=
      ⟨written ready place mode held, state, decide (0 < ix.embedder.dims)⟩
    obtain ⟨table, htable, -, hlast⟩ :=
      steps_kept (fun p : Progress σ => Filled P ready place mode p.tree)
        (fun batch (_ : batch ∈ groups ix.settings.fileBatchSize files) p =>
          filled_storeBatch ix (lasting_described _ held.serial) hholds batch)
        (show Filled P ready place mode start.tree from ⟨held, rfl, rfl, hdescribed⟩)
    exact ⟨table, trivial, hholds, htable, hlast⟩

/-! ### Moving the collection to its place -/

/-- The tree with a collection moved to its place. -/
def installed (ready : Tree) (base : Path) (name : String) (mode : Nat) (table : Table) : Tree :=
  (written ready (base ++ [name ++ stagingMark, "index.db"]) mode table).move
    (base ++ [name ++ stagingMark]) (base ++ [name])

/-- What was there before stays when a collection is moved to a free place. -/
theorem within_installed
    (h : Begun tree cleared ready mid location dir name base)
    (hnone : mid.get? (base ++ [name]) = none) (mode : Nat) (table : Table) :
    mid.Within (installed ready base name mode table) := by
  unfold installed
  rw [h.ready]
  exact .move h.wellFormed h.free hnone

section Installing

variable (ix) (collection)
variable (h : Begun tree cleared ready mid location dir name base)
  (hplaced : Placed location dir name) (hgiven : Path.Given (Store.file (staging location)))

include h hplaced hgiven

/-- **The directory with the database in it** is moved to the location and opened there. -/
theorem install_eq (hrenamed : (ready.rename (staging location) location).isOk = true)
    (mode : Nat) (table : Table) :
    ix.install location collection
        (written ready (base ++ [name ++ stagingMark, "index.db"]) mode table) =
      (.ok ⟨collection, location, some ⟨location, some table⟩, ix.embedder⟩,
        installed ready base name mode table) ∧
    (installed ready base name mode table).find true (Store.file location) =
      .ok ⟨base ++ [name, "index.db"], some (.file mode (.database table))⟩ := by
  have hstart (text : String) (hother : text = location ∨ text = staging location ∨
      text = Store.file location) : mid.start text = tree.start location := by
    rw [h.start_eq]
    rcases hother with rfl | rfl | rfl
    · rfl
    · exact hplaced.start_eq tree (.inl rfl)
    · exact hplaced.start_eq tree (.inr (.inl rfl))
  have hhere := And.intro (hstart (staging location) (.inr (.inl rfl))) hplaced.steps_staging
  have hthere := And.intro (hstart location (.inl rfl)) hplaced.steps
  obtain ⟨moved, hrename⟩ := Attempt.isOk_iff.mp hrenamed
  rw [h.ready] at hrename
  have hmoved : (written ready (base ++ [name ++ stagingMark, "index.db"]) mode table).rename
      (staging location) location = .ok (installed ready base name mode table) := by
    unfold installed
    rw [h.ready]
    exact rename_filled h.wellFormed h.free h.reaches hplaced.plain_stagingFile h.entering
      hplaced.isName (ne_staging name) hhere hthere hrename
  have hfound : (installed ready base name mode table).find true (Store.file location) =
        .ok ⟨base ++ [name, "index.db"], some (.file mode (.database table))⟩ := by
    unfold installed
    rw [h.ready]
    exact find_moved h.wellFormed h.free h.reaches hplaced.plain_stagingFile h.entering
      hplaced.isName (ne_staging name) hhere hthere hrename entering_file
      ⟨hstart (Store.file location) (.inr (.inr rfl)), hplaced.steps_file⟩ (hplaced.given hgiven)
  refine ⟨?_, hfound⟩
  simp only [install, hmoved, Store.open?_eq hfound, Store.counts, Store.table_eq hfound,
    Attempt.ok_bind, Attempt.pure_eq]

/-- A collection is moved to a place where nothing was, or what was built is taken away. -/
theorem install_cases (hnew : mid.isThere location = false) (mode : Nat) (table : Table) :
    (∃ fault, ix.install location collection
      (written ready (base ++ [name ++ stagingMark, "index.db"]) mode table) =
        (.error fault, mid)) ∨
    (mid.get? (base ++ [name]) = none ∧
      (installed ready base name mode table).find true (Store.file location) =
        .ok ⟨base ++ [name, "index.db"], some (.file mode (.database table))⟩ ∧
      ix.install location collection
        (written ready (base ++ [name ++ stagingMark, "index.db"]) mode table) =
          (.ok ⟨collection, location, some ⟨location, some table⟩, ix.embedder⟩,
            installed ready base name mode table)) := by
  cases hrename : (written ready (base ++ [name ++ stagingMark, "index.db"]) mode table).rename
      (staging location) location with
  | error fault =>
      refine .inl ⟨.access location fault, ?_⟩
      simp only [install, hrename, h.removed_written hplaced, Except.toOption, Option.getD_some]
  | ok moved =>
      have hhere : mid.start (staging location) = tree.start location := by
        rw [h.start_eq, hplaced.start_eq tree (.inl rfl)]
      rw [h.ready] at hrename
      obtain ⟨hnone, -, hrenamed⟩ := rename_put_of_filled h.wellFormed h.free h.reaches h.entering
        hplaced.isName (ne_staging name) ⟨hhere, hplaced.steps_staging⟩
        ⟨h.start_eq location, hplaced.steps⟩ hnew hrename
      obtain ⟨hinstall, hfound⟩ :=
        install_eq ix collection h hplaced hgiven (h.ready ▸ hrenamed) mode table
      exact .inr ⟨hnone, hfound, hinstall⟩

end Installing

/-! ### A whole build -/

/-- **The ways in which a build ends**: it is blocked by what lies where it is to build, it
cannot make the directory, it gives up and takes away what it has made, or it moves the
collection to its place. -/
inductive Ended (ix : CodebaseIndex σ) (tree : Tree) (location collection : String)
    (dir : List String) (name : String) : Except IndexFault (Retriever σ) → Tree → Prop where
  | blocked {fault} : removeIfThere tree (staging location) = .error (.access (staging location) fault) →
      Ended ix tree location collection dir name (.error (.access (staging location) fault)) tree
  | stopped {cleared partway fault} : removeIfThere tree (staging location) = .ok cleared →
      cleared.makeDirectoriesTo (staging location) = (some fault, partway) →
      Ended ix tree location collection dir name (.error (.access (staging location) fault)) partway
  | abandoned {cleared ready mid base fault} :
      Begun tree cleared ready mid location dir name base →
      Ended ix tree location collection dir name (.error fault) mid
  | moved {cleared ready mid base mode table} :
      Begun tree cleared ready mid location dir name base → mid.get? (base ++ [name]) = none →
      (installed ready base name mode table).find true (Store.file location) =
        .ok ⟨base ++ [name, "index.db"], some (.file mode (.database table))⟩ →
      Ended ix tree location collection dir name
        (.ok ⟨collection, location, some ⟨location, some table⟩, ix.embedder⟩)
        (installed ready base name mode table)

section Building

variable (ix) (stamp : Stamp) (root : Path) (collection : String) (files : List Source) (state : σ)
  (hwf : tree.WellFormed) (hopen : tree.HasDirectory (tree.start location))
  (hplaced : Placed location dir name) (hsteady : Steady tree location)

theorem buildInto_stopped {fault : Fault} {partway : Tree}
    (hmake : tree.makeDirectoriesTo directory = (some fault, partway)) :
    ix.buildInto stamp directory root collection files tree state =
      (.error (.access directory fault), partway, state) := by
  simp only [buildInto, Store.create, hmake]

include hplaced

/-- A build that has begun gives up or moves the collection to its place. -/
theorem ended_of_begun (h : Begun tree cleared ready mid location dir name base)
    (hnew : tree.isThere location = false) :
    Ended ix tree location collection dir name
      (ix.buildNew stamp location root collection files tree state).1
      (ix.buildNew stamp location root collection files tree state).2.1 := by
  simp only [buildNew, h.removed]
  rcases buildInto_cases ix stamp root collection files state h.made with
    ⟨fault, hbuild⟩ | ⟨store, place, mode, held, table, hlocation, hholds, htree, -⟩
  · simp only [hbuild, h.removed_ready hplaced, Except.toOption, Option.getD_some]
    exact .abandoned h
  · obtain ⟨hgiven, rfl, -⟩ := h.place_eq hplaced hlocation hholds
    cases hbuild : ix.buildInto stamp (staging location) root collection files cleared state with
    | mk result rest =>
        obtain ⟨after, final⟩ := rest
        obtain rfl : after = _ := by simpa [hbuild] using htree
        cases result with
        | error fault =>
            simp only [h.removed_written hplaced, Except.toOption, Option.getD_some]
            exact .abandoned h
        | ok done =>
            rcases install_cases ix collection h hplaced hgiven (h.not_there hplaced hnew) mode
              table with ⟨fault, hinstall⟩ | ⟨hnone, hfound, hinstall⟩
            · simp only [hinstall]
              exact .abandoned h
            · simp only [hinstall]
              exact .moved h hnone hfound

include hwf hopen hsteady

/-- **How a build ends** that finds no collection. -/
theorem ended_buildNew (hnew : tree.isThere location = false) :
    Ended ix tree location collection dir name
      (ix.buildNew stamp location root collection files tree state).1
      (ix.buildNew stamp location root collection files tree state).2.1 := by
  cases hremove : removeIfThere tree (staging location) with
  | error fault =>
      obtain ⟨stop, rfl⟩ := removeIfThere_eq_error hremove
      simp only [buildNew, hremove]
      exact .blocked hremove
  | ok cleared =>
      cases hmake : cleared.makeDirectoriesTo (staging location) with
      | mk outcome ready =>
          cases outcome with
          | some fault =>
              -- Nothing was made where the collection was to be built.
              obtain ⟨-, hno⟩ := not_find_of_stopped hwf hopen hplaced hsteady hremove hmake
              simp only [buildNew, hremove, removeIfThere_of_not_find hno,
                buildInto_stopped ix stamp root collection files state hmake]
              exact .stopped hremove hmake
          | none =>
              obtain ⟨mid, base, hbegun⟩ := exists_begun hwf hopen hplaced hsteady hremove hmake
              exact ended_of_begun ix stamp root collection files state hplaced hbegun hnew

end Building

/-- A collection that is not there is built from all sources. -/
theorem build_eq_of_new {stamp : Stamp} {project collection : String} {root : Path} {state : σ}
    {scanned : Option (List Source)} {files : List Source} (hroot : projectRoot tree project = .ok root)
    (hlocate : ix.locate tree root collection = .ok (location, scanned))
    (hscanned : scanned.getD (sources ix.languages tree root) = files)
    (hnew : tree.isThere location = false) :
    ix.build stamp tree project collection state =
      ⟨(ix.buildNew stamp location root collection files tree state).1,
        (ix.buildNew stamp location root collection files tree state).2.1,
        (ix.buildNew stamp location root collection files tree state).2.2, 1⟩ := by
  rw [build, hroot]
  simp only [hlocate, hnew, hscanned]
  rfl

section Whole

variable {project : String} {root : Path} {scanned : Option (List Source)} (stamp : Stamp) (state : σ)
  (hwf : tree.WellFormed) (hroot : projectRoot tree project = .ok root)
  (hlocate : ix.locate tree root collection = .ok (location, scanned))
  (hsteady : Steady tree location) (hnew : tree.isThere location = false)

include hwf hroot hlocate hsteady hnew

theorem ended_build_of_placed (hopen : tree.HasDirectory (tree.start location))
    (hplaced : Placed location dir name) :
    Ended ix tree location collection dir name
      (ix.build stamp tree project collection state).result
      (ix.build stamp tree project collection state).tree := by
  rw [build_eq_of_new hroot hlocate (locate_eq_ok hlocate).1 hnew]
  exact ended_buildNew ix stamp root collection _ state hwf hopen hplaced hsteady hnew

/-- **How a build ends** of a collection that is not there. -/
theorem ended_build (hhere : tree.HasDirectory tree.here) :
    ∃ dir name, Placed location dir name ∧ Ended ix tree location collection dir name
      (ix.build stamp tree project collection state).result
      (ix.build stamp tree project collection state).tree := by
  obtain ⟨_, -, hdir⟩ := find_projectRoot hwf hhere hroot
  obtain ⟨dir, name, hplaced⟩ := exists_placed_of_locate (hwf.plain hdir) hlocate
  exact ⟨dir, name, hplaced, ended_build_of_placed stamp state hwf hroot hlocate hsteady hnew
    (hasDirectory_start hhere location) hplaced⟩

end Whole

/-- **A build takes away nothing** but what lay where it builds. -/
theorem Ended.within {result : Except IndexFault (Retriever σ)} {after : Tree}
    (h : Ended ix tree location collection dir name result after) (hwf : tree.WellFormed)
    (hopen : tree.HasDirectory (tree.start location)) (hplaced : Placed location dir name)
    (hsteady : Steady tree location) :
    after = tree ∨ ∃ cleared, removeIfThere tree (staging location) = .ok cleared ∧
      cleared.Within after := by
  cases h with
  | blocked _ => exact .inl rfl
  | stopped hremove hmake =>
      exact .inr ⟨_, hremove, (not_find_of_stopped hwf hopen hplaced hsteady hremove hmake).1.within⟩
  | abandoned hbegun => exact .inr ⟨_, hbegun.removed, hbegun.grown.within⟩
  | @moved cleared ready mid base mode table hbegun hnone _ =>
      exact .inr ⟨cleared, hbegun.removed,
        hbegun.grown.within.trans (within_installed hbegun hnone mode table)⟩

/-- **A build that gave up** leaves the next one as it was. -/
theorem buildNew_restart (ix : CodebaseIndex σ) (h : Begun tree cleared ready mid location dir name base)
    (hplaced : Placed location dir name) (stamp : Stamp) (root : Path) (collection : String)
    (files : List Source) (state : σ) :
    ix.buildNew stamp location root collection files mid state =
      ix.buildNew stamp location root collection files tree state := by
  simp only [buildNew, buildInto, Store.create, h.removed, h.removed_mid hplaced, h.made, h.again]

end Index.CodebaseIndex

end Workbench
