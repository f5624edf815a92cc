/-
# Clearing a collection

A collection is removed by the names it can have: all that lies under one of them in the
directory of all collections goes, and nothing else. When that succeeds nothing of the
collection is found any more, so it is empty until it is built again from the start.

* `CodebaseIndex.removeAll_kept` — what lies apart from what is removed stays.
* `CodebaseIndex.not_find_of_clear` — **nothing is found under a name that was cleared.**
* `CodebaseIndex.clear_complete` — **clearing is complete**, for collections and projects whose
  names are not taken for others.
* `CodebaseIndex.clear_incomplete` — what is left of a project whose name ends in the mark of a
  build, of a collection whose name holds a slash, and of one that lies nowhere in particular.
-/

import Workbench.Proofs.Index.Building
import Workbench.Proofs.Index.Naming
import Workbench.Proofs.Index.Succeeding

namespace Workbench.Index

open Workbench.Files Workbench.Files.Tree Workbench.Collection

namespace CodebaseIndex

variable {σ : Type} {ix : CodebaseIndex σ} {tree after : Tree} {path : Path} {entry : Entry}
  {paths : List String} {project collection text name : String} {root : Path}

/-! ### One directory after the other -/

theorem removeAll_within (paths : List String) (tree : Tree) :
    (removeAll paths tree).2.Within tree := by
  induction paths generalizing tree with
  | nil => exact .refl tree
  | cons text rest ih =>
      rw [removeAll]
      cases hremove : removeIfThere tree text with
      | error fault => exact .refl tree
      | ok cleared => exact (ih cleared).trans (cleared_of_removeIfThere hremove).within

theorem wellFormed_removeAll (hwf : tree.WellFormed) : (removeAll paths tree).2.WellFormed := by
  induction paths generalizing tree with
  | nil => exact hwf
  | cons text rest ih =>
      rw [removeAll]
      cases hremove : removeIfThere tree text with
      | error fault => exact hwf
      | ok cleared => exact ih ((cleared_of_removeIfThere hremove).wellFormed hwf)

/-- Nothing but the root is found again at a path that was to be removed. -/
theorem removeAll_gone (h : removeAll paths tree = (.ok (), after)) (hmem : text ∈ paths)
    (hfind : after.find false text = .ok ⟨path, some entry⟩) : path = [] := by
  induction paths generalizing tree with
  | nil => simp at hmem
  | cons first rest ih =>
      rw [removeAll] at h
      cases hremove : removeIfThere tree first with
      | error fault => simp [hremove] at h
      | ok cleared =>
          simp only [hremove] at h
          rcases List.mem_cons.mp hmem with rfl | hmem
          · have hwithin : after.Within cleared := by
              simpa [h] using removeAll_within rest cleared
            exact (cleared_of_removeIfThere hremove).eq_nil_of_find (hwithin.find hfind)
          · exact ih h hmem

/-- **What lies apart** from all that is removed stays. -/
theorem removeAll_kept (hentry : tree.get? path = some entry)
    (hapart : ∀ text ∈ paths, ∀ place found, tree.find false text = .ok ⟨place, some found⟩ →
      ¬ place <+: path) : (removeAll paths tree).2.get? path = some entry := by
  induction paths generalizing tree with
  | nil => exact hentry
  | cons text rest ih =>
      rw [removeAll]
      cases hremove : removeIfThere tree text with
      | error fault => exact hentry
      | ok cleared =>
          have hcleared := cleared_of_removeIfThere hremove
          refine ih (hcleared.get?_of_apart hentry (hapart text (.head _))) ?_
          intro other mem place found hfind
          exact hapart other (.tail _ mem) place found (hcleared.within.find hfind)

/-! ### All names of a collection -/

/-- Clearing a collection removes what is found under its names, or does nothing. -/
theorem clear_cases (ix : CodebaseIndex σ) (tree : Tree) (project collection : String) :
    (∃ root dir mode, projectRoot tree project = .ok root ∧
      tree.find true ix.runtimeDir = .ok ⟨dir, some (.directory mode)⟩ ∧
      (ix.clear tree project collection).2 = (removeAll ((((tree.children dir).map (·.1)).filter
        fun name => belongsTo name (keyName root collection)).map (Path.below ix.runtimeDir))
          tree).2 ∧
      ((ix.clear tree project collection).1.isOk = true →
        (removeAll ((((tree.children dir).map (·.1)).filter
          fun name => belongsTo name (keyName root collection)).map (Path.below ix.runtimeDir))
            tree).1 = .ok ())) ∨
    (ix.clear tree project collection).2 = tree ∧
      ((ix.clear tree project collection).1.isOk = true →
        ∀ dir mode, tree.find true ix.runtimeDir ≠ .ok ⟨dir, some (.directory mode)⟩) := by
  unfold clear
  cases hroot : projectRoot tree project with
  | error fault => exact .inr ⟨rfl, by simp [Except.isOk, Except.toBool]⟩
  | ok root =>
      cases hfind : tree.find true ix.runtimeDir with
      | error fault => cases fault <;> exact .inr ⟨rfl, by simp⟩
      | ok found =>
          obtain ⟨dir, there⟩ := found
          cases there with
          | none => exact .inr ⟨rfl, by simp⟩
          | some entry =>
              cases entry with
              | file _ _ => exact .inr ⟨rfl, by simp⟩
              | link _ => exact .inr ⟨rfl, by simp⟩
              | directory mode =>
                  refine .inl ⟨root, dir, mode, rfl, rfl, ?_⟩
                  simp only
                  split
                  · next fault left hall => simp [hall, Except.isOk, Except.toBool]
                  · next left hall => simp [hall]

theorem within_clear (ix : CodebaseIndex σ) (tree : Tree) (project collection : String) :
    (ix.clear tree project collection).2.Within tree := by
  rcases clear_cases ix tree project collection with ⟨_, _, _, -, -, htree, -⟩ | ⟨htree, -⟩
  · rw [htree]
    exact removeAll_within _ tree
  · rw [htree]
    exact .refl tree

theorem wellFormed_clear (ix : CodebaseIndex σ) (project collection : String)
    (hwf : tree.WellFormed) : (ix.clear tree project collection).2.WellFormed := by
  rcases clear_cases ix tree project collection with ⟨_, _, _, -, -, htree, -⟩ | ⟨htree, -⟩
  · rw [htree]
    exact wellFormed_removeAll hwf
  · rw [htree]
    exact hwf

/-- **Nothing is found** under a name of a collection that was cleared. -/
theorem not_find_of_clear (hwf : tree.WellFormed) (hhere : tree.HasDirectory tree.here)
    (hruntime : ix.runtimeDir ≠ "") (hroot : projectRoot tree project = .ok root)
    (hclear : (ix.clear tree project collection).1.isOk = true) (hname : Path.IsName name)
    (hbelongs : belongsTo name (keyName root collection) = true) (path : Path) (entry : Entry) :
    (ix.clear tree project collection).2.find false (Path.below ix.runtimeDir name) ≠
      .ok ⟨path, some entry⟩ := by
  intro hfind
  have hbefore := (within_clear ix tree project collection).find hfind
  obtain ⟨dir, mode, hdir, hpath⟩ := exists_of_find_below hwf hhere hruntime hname hbefore
  obtain rfl : path = dir ++ [name] := hpath
  rcases clear_cases ix tree project collection with
    ⟨root', dir', mode', hroot', hdir', htree, hall⟩ | ⟨-, hno⟩
  · obtain rfl : root = root' := by simpa [hroot] using hroot'
    obtain ⟨rfl, -⟩ : dir = dir' ∧ mode = mode' := by simpa [hdir] using hdir'
    have hentry : tree.get? (dir ++ [name]) = some entry :=
      (find_eq_ok_iff.mp hbefore).2.entry_eq
    have hmem : Path.below ix.runtimeDir name ∈ (((tree.children dir).map (·.1)).filter
        fun name => belongsTo name (keyName root collection)).map (Path.below ix.runtimeDir) := by
      refine List.mem_map_of_mem (List.mem_filter.mpr ⟨?_, hbelongs⟩)
      exact List.mem_map.mpr ⟨(name, entry), (mem_children_iff hwf).mpr hentry, rfl⟩
    rw [htree] at hfind
    have hgone := removeAll_gone (Prod.ext (hall hclear) rfl) hmem hfind
    simp at hgone
  · exact hno hclear dir mode hdir

/-- Nothing of a collection is found after it was cleared: neither where it lies, whatever the
sources were when it was built, nor where it is built. -/
theorem not_find_location_of_clear {τ : Type} {later : CodebaseIndex τ} {removed : Bool}
    (hsame : later.runtimeDir = ix.runtimeDir) (hruntime : ix.runtimeDir ≠ "")
    (hcollection : '/' ∉ collection.toList)
    (hproject : ¬ stagingMark.toList <:+ (Project.nameOf root).toList) (hwf : tree.WellFormed)
    (hhere : tree.HasDirectory tree.here) (hroot : projectRoot tree project = .ok root)
    (hclear : ix.clear tree project collection = (.ok removed, after)) {before : Tree}
    {location : String} {scanned : Option (List Source)}
    (hlocate : later.locate before root collection = .ok (location, scanned)) (path : Path)
    (entry : Entry) : after.find false location ≠ .ok ⟨path, some entry⟩ ∧
      after.find false (staging location) ≠ .ok ⟨path, some entry⟩ := by
  obtain ⟨mode, -, hdir⟩ := find_projectRoot hwf hhere hroot
  obtain ⟨core, hnames, hname, hstagingName, rfl, hstaging⟩ :=
    exists_core (hwf.plain hdir) hcollection hlocate
  have hgone (name : String) (hname : Path.IsName name)
      (hbelongs : belongsTo name (keyName root collection) = true) :
      after.find false (Path.below later.runtimeDir name) ≠ .ok ⟨path, some entry⟩ := by
    have hno := not_find_of_clear hwf hhere hruntime hroot
      (by rw [hclear]; rfl) hname hbelongs path entry
    rwa [hclear, ← hsame] at hno
  refine ⟨hgone core hname ?_, hstaging ▸ hgone _ hstagingName ?_⟩
  · exact belongsTo_iff.mpr ⟨core, hnames, .inr ⟨rfl, hnames.not_staging hproject⟩⟩
  · exact belongsTo_iff.mpr ⟨core, hnames, .inl rfl⟩

/-- **Clearing is complete**: where it succeeds, nothing is left where the collection lies or is
built, whatever the sources were; a connection to it is empty, and a build that succeeds has
embedded every chunk of every source again. -/
theorem clear_complete {τ : Type} (ix : CodebaseIndex σ) (later : CodebaseIndex τ) (tree after : Tree)
    (project collection : String) (root : Path) (removed : Bool)
    (hsame : later.runtimeDir = ix.runtimeDir) (hruntime : ix.runtimeDir ≠ "")
    (hcollection : '/' ∉ collection.toList)
    (hproject : ¬ stagingMark.toList <:+ (Project.nameOf root).toList) (hwf : tree.WellFormed)
    (hhere : tree.HasDirectory tree.here) (hroot : projectRoot tree project = .ok root)
    (hclear : ix.clear tree project collection = (.ok removed, after)) :
    (∀ before location scanned, later.locate before root collection = .ok (location, scanned) →
      ∀ path entry, after.find false location ≠ .ok ⟨path, some entry⟩ ∧
        after.find false (staging location) ≠ .ok ⟨path, some entry⟩) ∧
    later.connect after project collection =
      (later.persistDir after project collection).map
        (fun location => ⟨collection, location, none, later.embedder⟩) ∧
    ∀ stamp state log r,
      (later.recorded.build stamp after project collection (state, log)).result = .ok r →
        ∃ chunks, later.chunkBatch after (sources later.languages after root) = .ok chunks ∧
          (later.recorded.build stamp after project collection (state, log)).state.2 =
            log ++ chunks.map (·.text) := by
  have hgone {before : Tree} {location : String} {scanned : Option (List Source)}
      (hlocate : later.locate before root collection = .ok (location, scanned)) (path : Path)
      (entry : Entry) : after.find false location ≠ .ok ⟨path, some entry⟩ ∧
        after.find false (staging location) ≠ .ok ⟨path, some entry⟩ :=
    not_find_location_of_clear hsame hruntime hcollection hproject hwf hhere hroot hclear hlocate
      path entry
  have hnew {location : String} {scanned : Option (List Source)}
      (hlocate : later.locate after root collection = .ok (location, scanned)) :
      after.isThere location = false :=
    isThere_eq_false_of_find fun path entry => (hgone hlocate path entry).1
  have hwithin : after.Within tree := by
    simpa [hclear] using within_clear ix tree project collection
  have hrootAfter {root' : Path} (h : projectRoot after project = .ok root') : root' = root := by
    simpa [hroot, eq_comm] using projectRoot_of_within hwithin h
  refine ⟨fun before location scanned hlocate => hgone hlocate, ?_, fun stamp state log r hbuild => ?_⟩
  · unfold connect persistDir
    cases hstill : projectRoot after project with
    | error fault => rfl
    | ok root' =>
        obtain rfl := hrootAfter hstill
        cases hlocate : later.locate after root' collection with
        | error fault => simp [Except.map, hlocate]
        | ok found =>
            have hno : after.isThere found.1 = false := hnew hlocate
            simp [Except.map, hlocate, hno]
  · cases hstill : projectRoot after project with
    | error fault => simp [build, hstill] at hbuild
    | ok root' =>
        obtain rfl := hrootAfter hstill
        cases hlocate : later.recorded.locate after root' collection with
        | error fault => simp [build, hstill, hlocate] at hbuild
        | ok found =>
            obtain ⟨location, scanned⟩ := found
            have hwfAfter : after.WellFormed := by
              simpa [hclear] using wellFormed_clear ix project collection hwf
            obtain ⟨mode, hfind, -⟩ :=
              find_projectRoot_of_within hwithin hwf hhere hwfAfter hstill
            rw [build_eq_of_new hstill hlocate (locate_eq_ok hlocate).1 (hnew hlocate)] at hbuild ⊢
            exact embedded_buildNew (fun other hremains s hs text =>
              read_of_remains hwfAfter hfind hs hremains) (Prod.ext hbuild rfl)

/-! ### Samples -/

/-- A project of which it is known where it is and which sources it has. -/
structure Sample (tree : Tree) (project : String) where
  root : Path
  files : List Source
  found : projectRoot tree project = .ok root
  listed : sources sampleIndex.languages tree root = files

/-- A collection of a sample is built from its sources. -/
theorem Sample.build_eq (s : Sample tree project) (ix : CodebaseIndex Unit) (stamp : Stamp)
    (collection location : String) (hlanguages : ix.languages = sampleIndex.languages)
    (hkey : ix.settings.contentHashKey = false)
    (hlocation : Index.location ix.runtimeDir s.root collection none = location)
    (hnew : tree.isThere location = false) :
    ix.build stamp tree project collection () =
      ⟨(ix.buildNew stamp location s.root collection s.files tree ()).1,
        (ix.buildNew stamp location s.root collection s.files tree ()).2.1, (), 1⟩ := by
  subst hlocation
  exact build_eq_of_new s.found (locate_eq_of_unkeyed hkey tree s.root collection)
    (hlanguages ▸ s.listed) hnew

/-- A project with all that builds of a collection can leave, and with another collection. -/
def builtTree : Tree :=
  ⟨[(["p"], .directory 0o755), (["p", "a.py"], .file 0o644 (.text "x\n")),
    (["r"], .directory 0o755), (["r", "x_p"], .directory 0o755),
    (["r", "x_p_0123456789ab"], .directory 0o755), (["r", "x_p.partial"], .directory 0o755),
    (["r", "y_p"], .directory 0o755)], []⟩

theorem clear_complete_builtTree :
    (sampleIndex.clear builtTree "/p" "x").1 = .ok true ∧
      (sampleIndex.connect (sampleIndex.clear builtTree "/p" "x").2 "/p" "x").map (·.store) =
        .ok none := by
  have hclear : (sampleIndex.clear builtTree "/p" "x").1 = .ok true := by decide +kernel
  have hpersist : sampleIndex.persistDir (sampleIndex.clear builtTree "/p" "x").2 "/p" "x" =
      .ok "/r/x_p" := by decide +kernel
  obtain ⟨-, hconnect, -⟩ := clear_complete sampleIndex sampleIndex builtTree _ "/p" "x" ["p"] true
    rfl (by decide) (by decide) (by decide) (by decide) (by decide) (by decide +kernel)
    (Prod.ext hclear rfl)
  refine ⟨hclear, ?_⟩
  rw [hconnect, hpersist]
  rfl

/-- A project whose name ends like that of a collection that is being built. -/
def markedTree : Tree :=
  ⟨[(["p.partial"], .directory 0o755), (["p.partial", "a.py"], .file 0o644 (.text "x\n"))], []⟩

/-- That project. -/
def marked : Sample markedTree "/p.partial" where
  root := ["p.partial"]
  files := [⟨["p.partial", "a.py"], "a.py", "py"⟩]
  found := by decide +kernel
  listed := sources_eq_singleton (by decide +kernel)

/-- The project with two sources. -/
def paired : Sample sourceTree "/p" where
  root := ["p"]
  files := [⟨["p", "a.py"], "a.py", "py"⟩, ⟨["p", "b.py"], "b.py", "py"⟩]
  found := by decide +kernel
  listed := sources_sourceTree

/-- The index that has its collections nowhere in particular. -/
def nowhereIndex : CodebaseIndex Unit :=
  { sampleIndex with runtimeDir := "" }

/-- **A collection stays** when it was cleared, and nothing is said to have been there, where the
name of the project ends in the mark of a build, where the name of the collection holds a slash,
and where the directory of all collections is not named. -/
theorem clear_incomplete :
    ((sampleIndex.clear (sampleIndex.build ⟨1, "now"⟩ markedTree "/p.partial" "x" ()).tree
        "/p.partial" "x").1 = .ok false ∧
      (sampleIndex.clear (sampleIndex.build ⟨1, "now"⟩ markedTree "/p.partial" "x" ()).tree
        "/p.partial" "x").2.isThere "/r/x_p.partial" = true) ∧
    ((sampleIndex.clear (sampleIndex.build ⟨1, "now"⟩ sourceTree "/p" "sub/x" ()).tree
        "/p" "sub/x").1 = .ok false ∧
      (sampleIndex.clear (sampleIndex.build ⟨1, "now"⟩ sourceTree "/p" "sub/x" ()).tree
        "/p" "sub/x").2.isThere "/r/sub/x_p" = true) ∧
    ((nowhereIndex.clear (nowhereIndex.build ⟨1, "now"⟩ sourceTree "/p" "x" ()).tree
        "/p" "x").1 = .ok false ∧
      (nowhereIndex.clear (nowhereIndex.build ⟨1, "now"⟩ sourceTree "/p" "x" ()).tree
        "/p" "x").2.isThere "x_p" = true) := by
  refine ⟨?_, ?_, ?_⟩
  · rw [marked.build_eq sampleIndex ⟨1, "now"⟩ "x" "/r/x_p.partial" rfl rfl (by decide +kernel)
      (by decide +kernel)]
    exact ⟨by decide +kernel, by decide +kernel⟩
  · rw [paired.build_eq sampleIndex ⟨1, "now"⟩ "sub/x" "/r/sub/x_p" rfl rfl (by decide +kernel)
      (by decide +kernel)]
    exact ⟨by decide +kernel, by decide +kernel⟩
  · rw [paired.build_eq nowhereIndex ⟨1, "now"⟩ "x" "x_p" rfl rfl (by decide +kernel)
      (by decide +kernel)]
    exact ⟨by decide +kernel, by decide +kernel⟩

end CodebaseIndex

end Workbench.Index
