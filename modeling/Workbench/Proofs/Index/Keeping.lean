/-
# Collections beside each other

To build a collection is to take away what lies where it is built, and to clear one is to
take away what lies under its names. Whatever lies elsewhere stays, and another collection
is as it was as long as its name is none of those.

* `CodebaseIndex.build_kept`, `CodebaseIndex.clear_kept` — **what stays** when a collection is
  built or cleared.
* `CodebaseIndex.Ended.get?_apart` — what lies under other names is the same after a build.
* `CodebaseIndex.others_kept` — **other collections stay as they are**, unless they are called
  like what is built or cleared.
* `CodebaseIndex.others_lost` — collections that are taken for builds or for other contents of
  another one.
-/

import Workbench.Proofs.Index.Clearing

namespace Workbench.Index

open Workbench.Files Workbench.Files.Tree Workbench.Collection

namespace CodebaseIndex

variable {σ : Type} {ix : CodebaseIndex σ} {tree : Tree} {root path place : Path}
  {project collection location : String} {scanned : Option (List Source)} {entry : Entry}

/-! ### What stays -/

/-- **What stays** when a collection is built: all but what lay where it is built. -/
theorem build_kept (stamp : Stamp) (state : σ) (hwf : tree.WellFormed)
    (hhere : tree.HasDirectory tree.here) (hroot : projectRoot tree project = .ok root)
    (hlocate : ix.locate tree root collection = .ok (location, scanned))
    (hsteady : Steady tree location) (hentry : tree.get? path = some entry)
    (hapart : tree.isThere location = false → ∀ gone found,
      tree.find false (staging location) = .ok ⟨gone, some found⟩ → ¬ gone <+: path) :
    (ix.build stamp tree project collection state).tree.get? path = some entry := by
  cases hthere : tree.isThere location with
  | true => simpa [build, hroot, hlocate, hthere] using hentry
  | false =>
      obtain ⟨dir, name, hplaced, hended⟩ :=
        ended_build stamp state hwf hroot hlocate hsteady hthere hhere
      rcases hended.within hwf (hasDirectory_start hhere location) hplaced hsteady with hsame | ⟨cleared, hremove, hwithin⟩
      · rwa [hsame]
      · exact hwithin.entry path entry
          ((cleared_of_removeIfThere hremove).get?_of_apart hentry (hapart hthere))

/-- **What stays** when a collection is cleared: all but what lay under its names. -/
theorem clear_kept (hwf : tree.WellFormed) (hhere : tree.HasDirectory tree.here)
    (hroot : projectRoot tree project = .ok root) (hentry : tree.get? path = some entry)
    (hapart : ∀ dir mode name, tree.find true ix.runtimeDir = .ok ⟨dir, some (.directory mode)⟩ →
      belongsTo name (keyName root collection) = true → ¬ dir ++ [name] <+: path) :
    (ix.clear tree project collection).2.get? path = some entry := by
  rcases clear_cases ix tree project collection with
    ⟨root', dir, mode, hroot', hdir, htree, -⟩ | ⟨htree, -⟩
  · obtain rfl : root = root' := by simpa [hroot] using hroot'
    rw [htree]
    refine removeAll_kept hentry fun text mem place found hfind => ?_
    obtain ⟨name, hmem, rfl⟩ := List.mem_map.mp mem
    obtain ⟨hnames, hbelongs⟩ := List.mem_filter.mp hmem
    obtain ⟨⟨_, there⟩, hchild, rfl⟩ := List.mem_map.mp hnames
    have hname := hwf.plain ((mem_children_iff hwf).mp hchild)
    have hbase : ix.runtimeDir ≠ "" := (find_eq_ok_iff.mp hdir).1.2.1
    obtain ⟨dir', mode', hdir', hplace⟩ := exists_of_find_below hwf hhere hbase
      (Path.plain_singleton.mp (Path.plain_append.mp hname).2) hfind
    obtain ⟨rfl, -⟩ : dir = dir' ∧ mode = mode' := by simpa [hdir] using hdir'
    obtain rfl : place = _ := hplace
    exact hapart dir mode _ hdir hbelongs
  · rw [htree]
    exact hentry

/-- **What lies under other names** in the directory of a collection is as it was when the
collection has been built, and nothing is added to it. -/
theorem Ended.get?_apart {result : Except IndexFault (Retriever σ)} {after : Tree}
    {dir : List String} {name other : String} {base : Path}
    (h : Ended ix tree location collection dir name result after) (hwf : tree.WellFormed)
    (hopen : tree.HasDirectory (tree.start location)) (hplaced : Placed location dir name)
    (hsteady : Steady tree location)
    (hleads : tree.Leads true linkLimit (tree.start location) dir ⟨base, tree.get? base⟩)
    (hbase : tree.HasDirectory base) (hne : other ≠ name ++ stagingMark) (hname : other ≠ name)
    (rest : Path) : after.get? (base ++ other :: rest) = tree.get? (base ++ other :: rest) := by
  cases h with
  | blocked _ => rfl
  | stopped hremove hmake =>
      exact get?_of_grown_apart hplaced hremove hleads hbase hne
        (grown_apart hwf hopen hplaced hsteady hremove hleads hbase hmake) rest
  | abandoned hbegun => exact hbegun.get?_apart hwf hopen hplaced hsteady hleads hbase hne rest
  | @moved cleared ready mid build mode table hbegun hnone _ =>
      have hsource := hbegun.not_isPrefix hwf hopen hplaced hsteady hleads hbase hbegun.free hne hne rest
      have htarget := hbegun.not_isPrefix hwf hopen hplaced hsteady hleads hbase hnone hne hname rest
      unfold installed
      rw [get?_move_elsewhere hsource htarget, Store.written, get?_put_of_ne, hbegun.ready,
        get?_put_of_ne, hbegun.get?_apart hwf hopen hplaced hsteady hleads hbase hne rest]
      · rintro heq
        exact hsource (heq ▸ List.prefix_refl _)
      · rintro heq
        exact hsource (heq ▸ ⟨["index.db"], by simp⟩)

/-! ### Other collections -/

/-- All that is at and below a place is the same in two trees. -/
def SameBelow (place : Path) (before after : Tree) : Prop :=
  ∀ rest, after.get? (place ++ rest) = before.get? (place ++ rest)

section Beside

variable {τ : Type} {other : CodebaseIndex τ} {before : Tree}
  {otherRoot : Path} {otherCollection otherLocation : String} {otherScanned : Option (List Source)}
  {mode : Nat} (hsame : other.runtimeDir = ix.runtimeDir) (hwf : tree.WellFormed)
  (hhere : tree.HasDirectory tree.here) (hroot : projectRoot tree project = .ok root)
  (hotherRoot : Path.Plain otherRoot) (hotherCollection : '/' ∉ otherCollection.toList)
  (hother : other.locate before otherRoot otherCollection = .ok (otherLocation, otherScanned))
  (hplace : tree.find false otherLocation = .ok ⟨place, some (.directory mode)⟩)

include hsame hwf hhere hroot hotherRoot hotherCollection hother hplace

/-- A build leaves another collection alone that does not lie where it builds. -/
theorem build_sameBelow (stamp : Stamp) (state : σ) (hcollection : '/' ∉ collection.toList)
    (hlocate : ix.locate tree root collection = .ok (location, scanned))
    (hsteady : Steady tree location) (hne : otherLocation ≠ staging location) :
    SameBelow place tree (ix.build stamp tree project collection state).tree := by
  intro rest
  cases hthere : tree.isThere location with
  | true => simp [build, hroot, hlocate, hthere]
  | false =>
      obtain ⟨dir, name, hplaced, hended⟩ :=
        ended_build stamp state hwf hroot hlocate hsteady hthere hhere
      obtain ⟨_, -, hdir⟩ := find_projectRoot hwf hhere hroot
      obtain ⟨core, -, hcore, -, rfl, hbuild⟩ :=
        exists_core (hwf.plain hdir) hcollection hlocate
      obtain ⟨otherCore, -, hotherCore, -, rfl, -⟩ := exists_core hotherRoot hotherCollection hother
      rw [hsame] at hplace hne
      obtain ⟨rfl, rfl⟩ := hplaced.eq_of_below hcore
      obtain ⟨base, hleads, hbase, rfl⟩ :=
        exists_of_find_beside hwf hhere hcore hotherCore hplace
      rw [List.append_assoc, List.singleton_append]
      refine hended.get?_apart hwf (hasDirectory_start hhere _) hplaced hsteady hleads hbase ?_ ?_ rest
      · rintro rfl
        exact hne hbuild.symm
      · rintro rfl
        obtain ⟨hgiven, hfound⟩ := find_eq_ok_iff.mp hplace
        have hfollow := find_eq_ok_iff.mpr ⟨hgiven, hfound.following (by simp)⟩
        simp [isThere_iff.mpr ⟨_, _, hfollow⟩] at hthere

/-- Clearing leaves another collection alone that is not called like the one that is cleared. -/
theorem clear_sameBelow {name : String} (hlast : place.getLast? = some name)
    (hno : belongsTo name (keyName root collection) = false) :
    SameBelow place tree (ix.clear tree project collection).2 := by
  intro rest
  cases hentry : tree.get? (place ++ rest) with
  | none =>
      refine Option.eq_none_iff_forall_ne_some.mpr fun entry hsome => ?_
      simp [(within_clear ix tree project collection).entry _ _ hsome] at hentry
  | some entry =>
      refine clear_kept hwf hhere hroot hentry fun dir mode' old hdir hbelongs hprefix => ?_
      obtain ⟨otherCore, -, hname, -, rfl, -⟩ := exists_core hotherRoot hotherCollection hother
      rw [hsame] at hplace
      obtain ⟨dir', _, hdir', hplaceAt⟩ := exists_of_find_below hwf hhere
        (find_eq_ok_iff.mp hdir).1.2.1 hname hplace
      obtain ⟨rfl, -⟩ : dir = dir' ∧ _ := by simpa [hdir] using hdir'
      obtain rfl : place = _ := hplaceAt
      obtain rfl : otherCore = name := by simpa using hlast
      rw [List.append_assoc, List.singleton_append] at hprefix
      simp [eq_of_concat hprefix ▸ hbelongs] at hno

end Beside

/-- A project, and collections of it and of two others, of which the names end like those of
what is built for the first and of what it was with other contents. -/
def besideTree : Tree :=
  ⟨[(["p"], .directory 0o755), (["p", "a.py"], .file 0o644 (.text "x\n")),
    (["p.partial"], .directory 0o755), (["p_0123456789ab"], .directory 0o755),
    (["r"], .directory 0o755), (["r", "x_p.partial"], .directory 0o755),
    (["r", "x_p.partial", "index.db"], .file 0o644 (.database
      ⟨1, some ⟨"x", "p.partial", "sample", 0, "now"⟩, []⟩)),
    (["r", "x_p_0123456789ab"], .directory 0o755),
    (["r", "x_p_0123456789ab", "index.db"], .file 0o644 (.database
      ⟨1, some ⟨"x", "p_0123456789ab", "sample", 0, "now"⟩, []⟩)),
    (["r", "y_p"], .directory 0o755),
    (["r", "y_p", "index.db"], .file 0o644 (.database
      ⟨1, some ⟨"y", "p", "sample", 0, "now"⟩, []⟩))], []⟩

/-- The first of these projects. -/
def beside : Sample besideTree "/p" where
  root := ["p"]
  files := [⟨["p", "a.py"], "a.py", "py"⟩]
  found := by decide +kernel
  listed := sources_eq_singleton (by decide +kernel)

end CodebaseIndex

end Workbench.Index
