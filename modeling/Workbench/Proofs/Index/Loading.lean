/-
# Collections that are loaded

A collection that is there is opened as it is. A build compares the model by which it is
described with the one at hand and refuses another one; a connection does not look at the
description, so it can be searched with vectors of another model.

* `CodebaseIndex.found_of_build` — what is found at the location after a build.
* `CodebaseIndex.described_buildNew` — how a collection is described that is built.
* `CodebaseIndex.build_bound` — **which retrievers are bound to the model of their collection.**
* `CodebaseIndex.connect_unbound` — a connection with another model.
-/

import Workbench.Proofs.Index.Sharing
import Workbench.Proofs.Index.Succeeding

namespace Workbench

open Workbench.Files Workbench.Files.Tree Workbench.Collection Workbench.Collection.Store
  Workbench.Calendar Workbench.Index

/-! ### Stores that are opened -/

namespace Collection.Store

variable {tree : Tree} {location : String} {store : Store} {table : Table}

/-- A database that could be opened and read is where its file is found. -/
theorem found_of_open (hopen : Store.open? tree location = some store)
    (htable : store.table tree = .ok table) :
    store = ⟨location, some table⟩ ∧ ∃ place mode,
      tree.find true (file location) = .ok ⟨place, some (.file mode (.database table))⟩ := by
  unfold Store.open? at hopen
  split at hopen
  · next mode content hstat =>
      obtain ⟨place, hfind⟩ := stat_eq_ok_iff.mp hstat
      obtain rfl := Option.some.inj hopen
      have hread : tree.read (file location) = .ok content := by
        rw [Tree.read, hstat]
        rfl
      cases content with
      | text s => simp [Store.table, query, databaseAt, hread] at htable
      | raw bytes => simp [Store.table, query, databaseAt, hread] at htable
      | database now =>
          obtain rfl : now = table := by simpa [Store.table, query, databaseAt, hread] using htable
          exact ⟨by simp [databaseAt, hread], place, mode, hfind⟩
  · cases hopen

/-- Queries differ in what they fail for, and not in what they find. -/
theorem query_eq_ok_iff (name : String) :
    store.query tree name = .ok table ↔ store.table tree = .ok table := by
  unfold Store.table Store.query
  cases store.held with
  | none => simp
  | some held =>
      cases tree.read (file store.location) with
      | error fault => rfl
      | ok content => cases content <;> simp

/-- The description of a store is that of the table it holds. -/
theorem description_eq_ok_iff {d : Description} {moment : Moment} :
    store.description tree = .ok (some (d, moment)) ↔ ∃ table, store.table tree = .ok table ∧
      table.description = some d ∧ Moment.parse d.created = .ok moment := by
  simp only [← query_eq_ok_iff descriptionTable]
  unfold Store.description
  cases htable : store.query tree descriptionTable with
  | error fault => simp
  | ok table =>
      cases hdescription : table.description with
      | none => simp [hdescription]
      | some old =>
          cases hmoment : Moment.parse old.created with
          | error fault =>
              simp only [Attempt.ok_bind, hdescription, hmoment, Attempt.throw_eq, Except.ok.injEq]
              constructor
              · rintro ⟨⟩
              · rintro ⟨_, rfl, hsome, hparse⟩
                obtain rfl := Option.some.inj (hdescription.symm.trans hsome)
                simp [hmoment] at hparse
          | ok found =>
              simp only [Attempt.ok_bind, hdescription, hmoment, Attempt.pure_eq, Except.ok.injEq,
                Option.some.injEq, Prod.mk.injEq]
              constructor
              · rintro ⟨rfl, rfl⟩
                exact ⟨table, rfl, hdescription, hmoment⟩
              · rintro ⟨_, rfl, hsome, hparse⟩
                obtain rfl := Option.some.inj (hdescription.symm.trans hsome)
                exact ⟨rfl, Except.ok.inj (hmoment.symm.trans hparse)⟩

end Collection.Store

namespace Index

/-- A retriever is bound to its collection if it embeds queries with the model by which the
collection is described. -/
def Retriever.Bound {σ : Type} (r : Retriever σ) (tree : Tree) : Prop :=
  ∃ store table d, r.store = some store ∧ store.table tree = .ok table ∧
    table.description = some d ∧ d.model = r.embedder.model

namespace CodebaseIndex

variable {σ : Type} {ix : CodebaseIndex σ} {tree after : Tree} {root : Path}
  {project collection location : String} {scanned : Option (List Source)} {files : List Source}
  {dir : List String} {name : String} {stamp : Stamp} {state final : σ} {r : Retriever σ}
  {store : Store} {d : Description} {moment : Moment}

/-! ### Collections that are there -/

theorem build_of_there (hroot : projectRoot tree project = .ok root)
    (hlocate : ix.locate tree root collection = .ok (location, scanned))
    (hthere : tree.isThere location = true) (stamp : Stamp) (state : σ) :
    ix.build stamp tree project collection state =
      ⟨ix.reuse tree location collection, tree, state, ix.locateWalks⟩ := by
  simp only [build, hroot, hlocate, hthere, if_true]

/-- **A collection is used again** if it was built with the same model. -/
theorem reuse_eq (hopen : Store.open? tree location = some store)
    (hdescription : store.description tree = .ok (some (d, moment))) :
    ix.reuse tree location collection =
      if d.model = ix.embedder.model then .ok ⟨collection, location, some store, ix.embedder⟩
      else .error (.embedding (.otherModel collection d.model ix.embedder.model)) := by
  by_cases hmodel : d.model = ix.embedder.model
  · simp [reuse, openThere, hopen, hdescription, hmodel]
  · simp [reuse, openThere, hopen, hdescription, hmodel]

theorem reuse_eq_ok (h : ix.reuse tree location collection = .ok r) :
    ∃ store d moment, Store.open? tree location = some store ∧
      store.description tree = .ok (some (d, moment)) ∧ d.model = ix.embedder.model ∧
      r = ⟨collection, location, some store, ix.embedder⟩ := by
  cases hopen : Store.open? tree location with
  | none => simp [reuse, openThere, hopen] at h
  | some store =>
      cases hdescription : store.description tree with
      | error fault => simp [reuse, openThere, hopen, hdescription] at h
      | ok found =>
          cases found with
          | none => simp [reuse, openThere, hopen, hdescription] at h
          | some described =>
              obtain ⟨d, moment⟩ := described
              rw [reuse_eq hopen hdescription] at h
              split at h
              · next hmodel =>
                  exact ⟨store, d, moment, rfl, hdescription, hmodel, (Except.ok.inj h).symm⟩
              · cases h

/-! ### Collections that are built -/

theorem install_eq_ok (h : ix.install location collection tree = (.ok r, after)) :
    ∃ store table, Store.open? after location = some store ∧ store.table after = .ok table ∧
      r = ⟨collection, location, some store, ix.embedder⟩ := by
  unfold install at h
  cases hrename : tree.rename (staging location) location with
  | error fault => simp [hrename] at h
  | ok moved =>
      simp only [hrename] at h
      cases hopen : Store.open? moved location with
      | none => simp [hopen] at h
      | some store =>
          simp only [hopen] at h
          cases htable : store.table moved with
          | error fault => simp [Store.counts, htable] at h
          | ok table =>
              obtain ⟨rfl, rfl⟩ : _ = r ∧ moved = after := by simpa [Store.counts, htable] using h
              exact ⟨store, table, hopen, htable, rfl⟩

/-- **What is found after a build**: the database of the collection, which the retriever holds. -/
theorem found_of_build (hroot : projectRoot tree project = .ok root)
    (hlocate : ix.locate tree root collection = .ok (location, scanned))
    (h : (ix.build stamp tree project collection state).result = .ok r) :
    ∃ table place mode,
      (ix.build stamp tree project collection state).tree.find true (Store.file location) =
        .ok ⟨place, some (.file mode (.database table))⟩ ∧
      r = ⟨collection, location, some ⟨location, some table⟩, ix.embedder⟩ := by
  cases hthere : tree.isThere location with
  | true =>
      rw [build_of_there hroot hlocate hthere] at h ⊢
      obtain ⟨store, d, moment, hopen, hdescription, -, rfl⟩ := reuse_eq_ok h
      obtain ⟨table, htable, -⟩ := description_eq_ok_iff.mp hdescription
      obtain ⟨rfl, place, mode, hfind⟩ := found_of_open hopen htable
      exact ⟨table, place, mode, hfind, rfl⟩
  | false =>
      rw [build_eq_of_new hroot hlocate rfl hthere] at h ⊢
      generalize hbuild : ix.buildNew stamp location root collection
        (scanned.getD (sources ix.languages tree root)) tree state = built at h ⊢
      obtain ⟨result, after, final⟩ := built
      obtain rfl : result = .ok r := h
      obtain ⟨_, _, filled, -, -, -, hinstall⟩ := buildNew_eq_ok hbuild
      obtain ⟨store, table, hopen, htable, rfl⟩ := install_eq_ok hinstall
      obtain ⟨rfl, place, mode, hfind⟩ := found_of_open hopen htable
      exact ⟨table, place, mode, hfind, rfl⟩

/-- **How a collection is described that is built**: as the build says. -/
theorem described_buildNew (hwf : tree.WellFormed) (hopen : tree.HasDirectory (tree.start location))
    (hplaced : Placed location dir name) (hsteady : Steady tree location)
    (hnew : tree.isThere location = false)
    (h : ix.buildNew stamp location root collection files tree state = (.ok r, after, final)) :
    ∃ table place mode,
      after.find true (Store.file location) = .ok ⟨place, some (.file mode (.database table))⟩ ∧
      Described (ix.describe root collection stamp) table ∧
      r = ⟨collection, location, some ⟨location, some table⟩, ix.embedder⟩ := by
  obtain ⟨cleared, ready, filled, hremove, hmake, hbuild, hinstall⟩ := buildNew_eq_ok h
  obtain ⟨mid, base, hbegun⟩ := exists_begun hwf hopen hplaced hsteady hremove hmake
  rcases buildInto_cases ix stamp root collection files state hmake with
    herror | ⟨store, place, mode, held, table, hlocation, hholds, htree, hdescribed⟩
  · simp [hbuild] at herror
  · obtain ⟨hgiven, rfl, -⟩ := hbegun.place_eq hplaced hlocation hholds
    obtain rfl : filled = _ := by simpa [hbuild] using htree
    rcases install_cases ix collection hbegun hplaced hgiven (hbegun.not_there hplaced hnew) mode
        table with ⟨fault, herror⟩ | ⟨-, hfound, hmoved⟩
    · simp [hinstall] at herror
    · obtain ⟨hr, rfl⟩ := Prod.ext_iff.mp (hinstall.symm.trans hmoved)
      exact ⟨table, _, mode, hfound, hdescribed, Except.ok.inj hr⟩

/-- A collection that is built anew is described as the build says. -/
theorem described_build (hwf : tree.WellFormed) (hhere : tree.HasDirectory tree.here)
    (hroot : projectRoot tree project = .ok root)
    (hlocate : ix.locate tree root collection = .ok (location, scanned))
    (hsteady : Steady tree location) (hnew : tree.isThere location = false)
    (h : (ix.build stamp tree project collection state).result = .ok r) :
    ∃ table place mode,
      (ix.build stamp tree project collection state).tree.find true (Store.file location) =
        .ok ⟨place, some (.file mode (.database table))⟩ ∧
      Described (ix.describe root collection stamp) table ∧
      r = ⟨collection, location, some ⟨location, some table⟩, ix.embedder⟩ := by
  obtain ⟨_, -, hdir⟩ := find_projectRoot hwf hhere hroot
  obtain ⟨dir, name, hplaced⟩ := exists_placed_of_locate (hwf.plain hdir) hlocate
  rw [build_eq_of_new hroot hlocate rfl hnew] at h ⊢
  exact described_buildNew hwf (hasDirectory_start hhere location) hplaced hsteady hnew
    (Prod.ext h rfl)

/-! ### Models -/

theorem bound_of_build (hroot : projectRoot tree project = .ok root)
    (hlocate : ix.locate tree root collection = .ok (location, scanned))
    (hplace : tree.isThere location = true ∨
      tree.WellFormed ∧ tree.HasDirectory tree.here ∧ Steady tree location)
    (h : (ix.build stamp tree project collection state).result = .ok r) :
    r.Bound (ix.build stamp tree project collection state).tree := by
  cases hthere : tree.isThere location with
  | true =>
      rw [build_of_there hroot hlocate hthere] at h ⊢
      obtain ⟨store, d, moment, hopen, hdescription, hmodel, rfl⟩ := reuse_eq_ok h
      obtain ⟨table, htable, hdescribed, -⟩ := description_eq_ok_iff.mp hdescription
      exact ⟨store, table, d, rfl, htable, hdescribed, hmodel⟩
  | false =>
      obtain ⟨hwf, hhere, hsteady⟩ := hplace.resolve_left (by simp [hthere])
      obtain ⟨table, place, mode, hfind, ⟨dims, hdescribed⟩, rfl⟩ :=
        described_build hwf hhere hroot hlocate hsteady hthere h
      exact ⟨_, table, _, rfl, Store.table_eq hfind, hdescribed, rfl⟩

/-- **Which retrievers are bound to the model of their collection.** A build of a collection that
is there opens it if it was built with the same model, and is a fault of the embedding
otherwise; whatever a build returns is bound, as long as the way to the location is steady
where the collection is new. A connection to a collection that is there is opened whichever
model it was built with, so it is bound only if that is the model at hand. -/
theorem build_bound (ix : CodebaseIndex σ) (stamp : Stamp) (tree : Tree) (root : Path)
    (project collection location : String) (scanned : Option (List Source)) (state : σ)
    (hroot : projectRoot tree project = .ok root)
    (hlocate : ix.locate tree root collection = .ok (location, scanned)) :
    (∀ store d moment, tree.isThere location = true → Store.open? tree location = some store →
      store.description tree = .ok (some (d, moment)) →
        ix.build stamp tree project collection state =
          ⟨if d.model = ix.embedder.model then
              .ok ⟨collection, location, some store, ix.embedder⟩
            else .error (.embedding (.otherModel collection d.model ix.embedder.model)),
            tree, state, ix.locateWalks⟩ ∧
        ∃ r, ix.connect tree project collection = .ok r ∧ r.store = some store ∧
          (r.Bound tree ↔ d.model = ix.embedder.model)) ∧
    (∀ r, (tree.isThere location = true ∨
        tree.WellFormed ∧ tree.HasDirectory tree.here ∧ Steady tree location) →
      (ix.build stamp tree project collection state).result = .ok r →
        r.Bound (ix.build stamp tree project collection state).tree) := by
  refine ⟨?_, fun r hplace h => bound_of_build hroot hlocate hplace h⟩
  intro store d moment hthere hopen hdescription
  refine ⟨?_, _, connect_of_there hroot hlocate hthere hopen, rfl, ?_⟩
  · rw [build_of_there hroot hlocate hthere, reuse_eq hopen hdescription]
  · obtain ⟨table, htable, hdescribed, -⟩ := description_eq_ok_iff.mp hdescription
    constructor
    · rintro ⟨_, table', d', ⟨⟩, htable', hdescribed', hmodel⟩
      obtain rfl := Except.ok.inj (htable.symm.trans htable')
      obtain rfl := Option.some.inj (hdescribed.symm.trans hdescribed')
      exact hmodel
    · intro hmodel
      exact ⟨store, table, d, rfl, htable, hdescribed, hmodel⟩

/-! ### A sample -/

/-- The sample index with another model. -/
def otherIndex : CodebaseIndex Unit :=
  { sampleIndex with embedder := { sampleIndex.embedder with model := "other" } }

/-- The tree after the sample collection has been built. -/
def builtNamesakeTree : Tree :=
  (sampleIndex.buildNew sampleStamp "/r/a_b_c" namesake.root "a_b" namesake.files namesakeTree ()).2.1

/-- The database of the sample collection. -/
def namesakeTable : Table :=
  ⟨1, some ⟨"a_b", "c", "sample", 1, "2026-01-01T00:00:00+00:00"⟩,
    [⟨"one.py", "file", none, 0, 0, "x\n", [2, 0, 0, 0]⟩]⟩

theorem tree_build_namesakeTree :
    (sampleIndex.build sampleStamp namesakeTree "/c" "a_b" ()).tree = builtNamesakeTree := by
  rw [build_namesakeTree]
  rfl

theorem open?_builtNamesakeTree :
    Store.open? builtNamesakeTree "/r/a_b_c" = some ⟨"/r/a_b_c", some namesakeTable⟩ := by
  decide +kernel

theorem table_builtNamesakeTree :
    Store.table ⟨"/r/a_b_c", some namesakeTable⟩ builtNamesakeTree = .ok namesakeTable := by
  decide +kernel

theorem locate_otherIndex (tree : Tree) :
    otherIndex.locate tree ["c"] "a_b" = .ok ("/r/a_b_c", none) := by
  rw [locate_eq_of_unkeyed rfl]
  decide +kernel

theorem build_bound_namesakeTree :
    (∃ r, (sampleIndex.build sampleStamp namesakeTree "/c" "a_b" ()).result = .ok r ∧
      r.Bound builtNamesakeTree) ∧
    (otherIndex.build sampleStamp builtNamesakeTree "/c" "a_b" ()).result.map (fun _ => ()) =
      .error (.embedding (.otherModel "a_b" "sample" "other")) := by
  constructor
  · have hlocate : sampleIndex.locate namesakeTree ["c"] "a_b" = .ok ("/r/a_b_c", none) := by
      decide +kernel
    obtain ⟨r, hr⟩ :
        ∃ r, (sampleIndex.build sampleStamp namesakeTree "/c" "a_b" ()).result = .ok r := by
      refine Attempt.isOk_iff.mp ?_
      rw [build_namesakeTree]
      decide +kernel
    have hbound := (build_bound sampleIndex sampleStamp namesakeTree ["c"] "/c" "a_b" "/r/a_b_c" none
      () namesake.found hlocate).2 r (.inr ⟨by decide, by decide, .inl (by decide +kernel)⟩) hr
    exact ⟨r, hr, tree_build_namesakeTree ▸ hbound⟩
  · obtain ⟨moment, hmoment⟩ : ∃ moment, Moment.parse "2026-01-01T00:00:00+00:00" = .ok moment :=
      Attempt.isOk_iff.mp (by decide +kernel)
    have hrefused := ((build_bound otherIndex sampleStamp builtNamesakeTree ["c"] "/c" "a_b"
      "/r/a_b_c" none () (by decide +kernel) (locate_otherIndex _)).1 _ _ moment (by decide +kernel)
        open?_builtNamesakeTree
        (description_eq_ok_iff.mpr ⟨_, table_builtNamesakeTree, rfl, hmoment⟩)).1
    rw [hrefused]
    rfl

/-- **A connection with another model** is opened, while a build with it is refused. -/
theorem connect_unbound :
    (otherIndex.build sampleStamp (sampleIndex.build sampleStamp namesakeTree "/c" "a_b" ()).tree
        "/c" "a_b" ()).result.map (fun _ => ()) =
      .error (.embedding (.otherModel "a_b" "sample" "other")) ∧
    ∃ r, otherIndex.connect (sampleIndex.build sampleStamp namesakeTree "/c" "a_b" ()).tree
        "/c" "a_b" = .ok r ∧ r.store.isSome = true ∧
      ¬ r.Bound (sampleIndex.build sampleStamp namesakeTree "/c" "a_b" ()).tree := by
  rw [tree_build_namesakeTree]
  have hroot : projectRoot builtNamesakeTree "/c" = .ok ["c"] := by decide +kernel
  refine ⟨by decide +kernel, _, connect_of_there hroot (locate_otherIndex _) (by decide +kernel)
    open?_builtNamesakeTree, rfl, ?_⟩
  rintro ⟨_, table, d, ⟨⟩, htable, hdescribed, hmodel⟩
  obtain rfl := Except.ok.inj (table_builtNamesakeTree.symm.trans htable)
  obtain rfl := Option.some.inj hdescribed
  exact absurd hmodel (by decide)

end CodebaseIndex

end Index

end Workbench
