/-
# Collections that share a location

Where a collection lies is all that tells it from others: what is described in its database
is never compared with what was asked for. So a collection is found under every name that
leads to its location, and under no other.

* `CodebaseIndex.connect_of_built` — what a connection holds after a build.
* `CodebaseIndex.shared_iff` — **which collections are taken for each other**, and what is
  found under the name of one when the other was built.
* `CodebaseIndex.shared_sample` — two collections with one location.
-/

import Workbench.Proofs.Index.Clearing

namespace Workbench.Index

open Workbench.Files Workbench.Files.Tree Workbench.Collection

namespace CodebaseIndex

variable {σ : Type} {ix : CodebaseIndex σ} {tree cleared ready mid after : Tree} {root base : Path}
  {project collection location : String} {dir : List String} {name other : String} {mode : Nat}
  {table : Table}

/-! ### Connections -/

/-- A connection holds the database that is found where the collection lies. -/
theorem connect_of_there {scanned : Option (List Source)}
    (hroot : projectRoot tree project = .ok root)
    (hlocate : ix.locate tree root collection = .ok (location, scanned))
    (hthere : tree.isThere location = true) {store : Store}
    (hopen : Store.open? tree location = some store) :
    ix.connect tree project collection = .ok ⟨collection, location, some store, ix.embedder⟩ := by
  simp [connect, persistDir, openThere, hroot, hlocate, hthere, hopen]

/-- A connection to what is not there holds nothing. -/
theorem connect_of_new (hroot : projectRoot tree project = .ok root)
    (hlocate : ix.locate tree root collection = .ok (location, none))
    (hnew : tree.isThere location = false) :
    ix.connect tree project collection = .ok ⟨collection, location, none, ix.embedder⟩ := by
  simp [connect, persistDir, hroot, hlocate, hnew]

/-! ### After a build -/

/-- A collection is there when it has been moved to its location. -/
theorem isThere_installed (h : Begun tree cleared ready mid location dir name base)
    (hplaced : Placed location dir name) (hnone : mid.get? (base ++ [name]) = none)
    (hfound : (installed ready base name mode table).find true (Store.file location) =
      .ok ⟨base ++ [name, "index.db"], some (.file mode (.database table))⟩) :
    (installed ready base name mode table).isThere location = true := by
  obtain ⟨hgiven, hleads⟩ := find_eq_ok_iff.mp hfound
  rw [hplaced.steps_file] at hleads
  have hentering : Entering name :=
    ⟨hplaced.isName.2.1, hplaced.isName.2.2.1, hleads.short name (by simp)⟩
  have hwithin := within_installed h hnone mode table
  have hreaches : (installed ready base name mode table).Reaches (tree.start location) dir base :=
    h.reaches.carry (fun _ => hwithin.hasDirectory) fun _ _ => hwithin.entry _ _
  have hdir : (installed ready base name mode table).get? (base ++ [name]) =
      some (.directory directoryMode) := by
    unfold installed
    rw [h.ready]
    exact get?_moved h.wellFormed h.free hnone h.reaches.directory hplaced.plain_stagingFile
      (ne_staging name)
  have hlocation := hreaches.leads_name true hentering (by simp [hdir])
  rw [hdir, ← h.start_eq, hwithin.start_eq, ← hplaced.steps] at hlocation
  exact isThere_iff.mpr ⟨_, _, find_eq_ok_iff.mpr
    ⟨Path.given_of_below hplaced.ne_empty (by decide) hgiven, hlocation⟩⟩

/-- Nothing else is there in the same directory than before. -/
theorem not_there_installed (h : Begun tree cleared ready mid location dir name base)
    (hnone : mid.get? (base ++ [name]) = none) {text : String}
    (htext : tree.start text = tree.start location ∧ Path.steps text = dir ++ [other])
    (hother : Path.IsName other) (hne : other ≠ name)
    (hno : ∀ path entry, tree.find false text ≠ .ok ⟨path, some entry⟩) :
    (installed ready base name mode table).isThere text = false := by
  rw [Bool.eq_false_iff]
  intro hthere
  obtain ⟨path, entry, hfind⟩ := isThere_iff.mp hthere
  obtain ⟨hgiven, hleads⟩ := find_eq_ok_iff.mp hfind
  have hwithin := within_installed h hnone mode table
  rw [← hwithin.start_eq, h.start_eq, htext.1, htext.2] at hleads
  have hentering : Entering other := ⟨hother.2.1, hother.2.2.1, hleads.short other (by simp)⟩
  have hreaches : (installed ready base name mode table).Reaches (tree.start location) dir base :=
    h.reaches.carry (fun _ => hwithin.hasDirectory) fun _ _ => hwithin.entry _ _
  -- Nothing of that name is in the directory.
  have hmid : mid.get? (base ++ [other]) = none := by
    refine Option.eq_none_iff_forall_ne_some.mpr fun found hsome => ?_
    rcases h.fresh with rfl | hempty
    · have hat := h.reaches.leads_name false hentering (by simp)
      rw [hsome, ← htext.1, ← htext.2, ← h.start_eq] at hat
      exact hno _ _ ((cleared_of_removeIfThere h.removed).within.find
        (find_eq_ok_iff.mpr ⟨hgiven, hat⟩))
    · simp [hempty] at hsome
  have hafter : (installed ready base name mode table).get? (base ++ [other]) = none := by
    unfold installed
    by_cases hstaging : other = name ++ stagingMark
    · subst hstaging
      exact get?_move_source (by simp) (by simpa using hne.symm)
    · rw [get?_move_elsewhere (by simpa using Ne.symm hstaging) (by simpa using hne.symm), Store.written,
        get?_put_of_ne _ (by simp), h.ready, get?_put_of_ne _ (by simpa using hstaging), hmid]
  have hend := hleads.unique (hreaches.leads_name true hentering (by simp [hafter]))
  simp [hafter] at hend

/-! ### Keys -/

/-- After a build that succeeded, a connection of the same location finds what was built, and
one of another location nothing, if nothing was there before. -/
theorem connect_of_built {τ : Type} {builder : CodebaseIndex τ} {stamp : Stamp} {state : τ}
    {built : Retriever τ} {builtProject builtCollection builtLocation : String} {builtRoot : Path}
    (hsame : builder.runtimeDir = ix.runtimeDir)
    (hcollection : '/' ∉ collection.toList) (hbuiltCollection : '/' ∉ builtCollection.toList)
    (hwf : tree.WellFormed) (hhere : tree.HasDirectory tree.here)
    (hplainRoot : Path.Plain root) (hbuiltRoot : projectRoot tree builtProject = .ok builtRoot)
    (hlocate : ∀ tree, ix.locate tree root collection = .ok (location, none))
    (hbuiltLocate : builder.locate tree builtRoot builtCollection = .ok (builtLocation, none))
    (hsteady : Steady tree builtLocation) (hnew : tree.isThere builtLocation = false)
    (hno : ∀ path entry, tree.find false location ≠ .ok ⟨path, some entry⟩)
    (hbuild : (builder.build stamp tree builtProject builtCollection state).result = .ok built)
    (hroot : projectRoot (builder.build stamp tree builtProject builtCollection state).tree project =
      .ok root) :
    built.store.isSome ∧
    ix.connect (builder.build stamp tree builtProject builtCollection state).tree project collection =
      .ok ⟨collection, location, if location = builtLocation then built.store else none,
        ix.embedder⟩ := by
  obtain ⟨dir, name, hplaced, hended⟩ :=
    ended_build stamp state hwf hbuiltRoot hbuiltLocate hsteady hnew hhere
  rw [hbuild] at hended
  generalize (builder.build stamp tree builtProject builtCollection state).tree = after at *
  cases hended with
  | @moved cleared ready mid base mode table hbegun hnone hfound =>
      refine ⟨rfl, ?_⟩
      split
      · next heq =>
          subst heq
          exact connect_of_there hroot (hlocate _) (isThere_installed hbegun hplaced hnone hfound)
            (Store.open?_eq hfound)
      · next hne =>
          obtain ⟨_, -, hdir⟩ := find_projectRoot hwf hhere hbuiltRoot
          obtain ⟨core, -, hcore, -, rfl, -⟩ :=
            exists_core (hwf.plain hdir) hbuiltCollection hbuiltLocate
          obtain ⟨other, -, hother, -, rfl, -⟩ := exists_core hplainRoot hcollection (hlocate tree)
          obtain ⟨rfl, rfl⟩ := hplaced.eq_of_below hcore
          rw [hsame] at *
          exact connect_of_new hroot (hlocate _) (not_there_installed hbegun hnone
            ⟨start_below hother hcore, Path.steps_below _ hother.2.2.2 hother.1⟩ hother
            (fun heq => hne (by rw [heq])) hno)

/-- **Which collections are taken for each other**: those with one location, that is, of which
one has in the name of its project what the other has in its own name. After one of them was
built the other is connected to what was built; under any other location nothing is found. -/
theorem shared_iff {τ : Type} (ix : CodebaseIndex σ) (builder : CodebaseIndex τ)
    (root builtRoot : Path) (collection builtCollection : String)
    (hsame : builder.runtimeDir = ix.runtimeDir) (hkey : ix.settings.contentHashKey = false)
    (hbuilderKey : builder.settings.contentHashKey = false) (hplain : Path.Plain root)
    (hbuiltPlain : Path.Plain builtRoot) (hcollection : '/' ∉ collection.toList)
    (hbuiltCollection : '/' ∉ builtCollection.toList) :
    (Index.location ix.runtimeDir root collection none =
        Index.location ix.runtimeDir builtRoot builtCollection none ↔
      (collection = builtCollection ∧ Project.nameOf root = Project.nameOf builtRoot) ∨
      (∃ middle, builtCollection = collection ++ "_" ++ middle ∧
        Project.nameOf root = middle ++ "_" ++ Project.nameOf builtRoot) ∨
      ∃ middle, collection = builtCollection ++ "_" ++ middle ∧
        Project.nameOf builtRoot = middle ++ "_" ++ Project.nameOf root) ∧
    ∀ stamp tree after project builtProject state final built walks,
      tree.WellFormed → tree.HasDirectory tree.here → projectRoot tree builtProject = .ok builtRoot →
      Steady tree (Index.location ix.runtimeDir builtRoot builtCollection none) →
      tree.isThere (Index.location ix.runtimeDir builtRoot builtCollection none) = false →
      (∀ path entry, tree.find false (Index.location ix.runtimeDir root collection none) ≠
        .ok ⟨path, some entry⟩) →
      builder.build stamp tree builtProject builtCollection state = ⟨.ok built, after, final, walks⟩ →
      projectRoot after project = .ok root →
        built.store.isSome ∧
        ix.connect after project collection =
          .ok ⟨collection, Index.location ix.runtimeDir root collection none,
            if Index.location ix.runtimeDir root collection none =
              Index.location ix.runtimeDir builtRoot builtCollection none then built.store else none,
            ix.embedder⟩ := by
  refine ⟨location_eq_iff hplain hbuiltPlain hcollection hbuiltCollection, ?_⟩
  intro stamp tree after project builtProject state final built walks hwf hhere hbuiltRoot hsteady
    hnew hno hbuild hroot
  obtain rfl : (builder.build stamp tree builtProject builtCollection state).tree = after := by
    rw [hbuild]
  have hbuiltLocate := locate_eq_of_unkeyed hbuilderKey tree builtRoot builtCollection
  rw [hsame] at hbuiltLocate
  exact connect_of_built hsame hcollection hbuiltCollection hwf hhere hplain hbuiltRoot
    (fun tree => locate_eq_of_unkeyed hkey tree root collection) hbuiltLocate hsteady hnew hno
    (by rw [hbuild]) hroot

/-- Two projects, of which the name of one ends like that of the other. -/
def namesakeTree : Tree :=
  ⟨[(["c"], .directory 0o755), (["c", "one.py"], .file 0o644 (.text "x\n")),
    (["b_c"], .directory 0o755), (["b_c", "two.py"], .file 0o644 (.text "y\n"))], []⟩

/-- The project of which the name is shorter. -/
def namesake : Sample namesakeTree "/c" where
  root := ["c"]
  files := [⟨["c", "one.py"], "one.py", "py"⟩]
  found := by decide +kernel
  listed := sources_eq_singleton (by decide +kernel)

/-- When the collections of the sample are built. -/
def sampleStamp : Stamp :=
  ⟨1, "2026-01-01T00:00:00+00:00"⟩

/-- The collection `a_b` of the project `c`, built. -/
theorem build_namesakeTree :
    sampleIndex.build sampleStamp namesakeTree "/c" "a_b" () =
      ⟨(sampleIndex.buildNew sampleStamp "/r/a_b_c" namesake.root "a_b" namesake.files namesakeTree ()).1,
        (sampleIndex.buildNew sampleStamp "/r/a_b_c" namesake.root "a_b" namesake.files
          namesakeTree ()).2.1, (), 1⟩ :=
  namesake.build_eq sampleIndex sampleStamp "a_b" "/r/a_b_c" rfl rfl (by decide +kernel)
    (by decide +kernel)

theorem shared_iff_namesakeTree :
    ∃ built : Retriever Unit, (sampleIndex.build sampleStamp namesakeTree "/c" "a_b" ()).result = .ok built ∧
      built.store.isSome ∧
      sampleIndex.connect (sampleIndex.build sampleStamp namesakeTree "/c" "a_b" ()).tree "/b_c" "a" =
        .ok ⟨"a", "/r/a_b_c", built.store, sampleIndex.embedder⟩ := by
  obtain ⟨built, hresult⟩ : ∃ built, (sampleIndex.build sampleStamp namesakeTree "/c" "a_b" ()).result =
      .ok built := by
    refine Attempt.isOk_iff.mp ?_
    rw [build_namesakeTree]
    decide +kernel
  have hroot : projectRoot (sampleIndex.build sampleStamp namesakeTree "/c" "a_b" ()).tree "/b_c" =
      .ok ["b_c"] := by
    rw [build_namesakeTree]
    decide +kernel
  have hwhere : Index.location "/r" ["b_c"] "a" none = "/r/a_b_c" := by decide +kernel
  have hbuiltWhere : Index.location "/r" ["c"] "a_b" none = "/r/a_b_c" := by decide +kernel
  have hshared := (shared_iff sampleIndex sampleIndex ["b_c"] ["c"] "a" "a_b" rfl rfl rfl
    (by decide) (by decide) (by decide) (by decide)).2 sampleStamp namesakeTree _ "/b_c" "/c" () _ built
    _ (by decide) (by decide) namesake.found (.inl (by decide +kernel)) (by decide +kernel)
    (fun path entry => by
      rw [show namesakeTree.find false (Index.location sampleIndex.runtimeDir ["b_c"] "a" none) =
        .error .missing by decide +kernel]
      simp) (by rw [← hresult]) hroot
  rw [show sampleIndex.runtimeDir = "/r" from rfl, hwhere, hbuiltWhere, if_pos rfl] at hshared
  exact ⟨built, hresult, hshared⟩

/-- **A search finds what was built for another project**: the collection `a` of the project
`b_c` lies where the collection `a_b` of the project `c` does. It is taken to be there, and
what is found in it is from the other project. -/
theorem shared_sample :
    Index.location "/r" ["c"] "a_b" none = Index.location "/r" ["b_c"] "a" none ∧
    (sampleIndex.build ⟨2, "2026-01-02T00:00:00+00:00"⟩
        (sampleIndex.build sampleStamp namesakeTree "/c" "a_b" ()).tree "/b_c" "a" ()).result.map
      (fun r => (r.collection, (Store.rowsAt
        (sampleIndex.build sampleStamp namesakeTree "/c" "a_b" ()).tree r.location).map (·.path))) =
          .ok ("a", ["one.py"]) := by
  refine ⟨by decide +kernel, ?_⟩
  rw [build_namesakeTree]
  decide +kernel

end CodebaseIndex

end Workbench.Index
