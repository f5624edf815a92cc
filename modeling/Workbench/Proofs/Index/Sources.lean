/-
# Which sources there are

The sources of a project are the files below its root that are not hidden, lie in directories
that can be read and have an extension with a language, each once and in the order of their
paths.

* `mem_sources_iff` — **what a source is**.
* `pairwise_sources` — **sources come in the order of their paths**, without two of one
  path where no name holds a backslash.
* `nodup_places` — each file is one source.
-/

import Mathlib.Data.List.Sort
import Workbench.Index.Codebase
import Workbench.Proofs.Files.Listing
import Workbench.Proofs.Files.Relative
import Workbench.Proofs.Files.Within
import Workbench.Proofs.Project.Resolving
import Workbench.Proofs.Sorting

namespace Workbench

open Workbench.Files Workbench.Files.Tree Workbench.Code

/-! ### Plain sources -/

/-- A grammar as far as it goes for sources without definitions. -/
def Code.Grammar.plain : Grammar :=
  ⟨none, fun _ => none, fun _ => some []⟩

/-- Grammars for such sources. -/
def Code.Grammars.plain : Grammars :=
  ⟨.plain, .plain, .plain⟩

namespace Index

variable {languages : Registry} {tree : Tree} {root : Path} {project : String} {s : Source}

/-! ### The root -/

/-- The root of a project is where the project is found. -/
theorem find_projectRoot (hwf : tree.WellFormed) (hhere : tree.HasDirectory tree.here)
    (h : projectRoot tree project = .ok root) :
    ∃ mode, tree.find true (Path.text root) = .ok ⟨root, some (.directory mode)⟩ ∧
      tree.get? root = some (.directory mode) := by
  unfold projectRoot at h
  cases hreal : tree.realPath project with
  | error fault => simp [hreal] at h
  | ok real =>
      simp only [hreal] at h
      split at h
      · next hdir =>
          obtain rfl : real = root := by simpa using h
          exact Project.find_realPath hwf hhere hreal hdir
      · simp at h

/-- A project whose directory is there in part of a tree has the same root in all of it. -/
theorem projectRoot_of_within {part whole : Tree} {project : String} {root : Path}
    (h : part.Within whole) (hroot : projectRoot part project = .ok root) :
    projectRoot whole project = .ok root := by
  unfold projectRoot at hroot ⊢
  cases hreal : part.realPath project with
  | error fault => simp [hreal] at hroot
  | ok real =>
      simp only [hreal] at hroot
      split at hroot
      · next hdir =>
          rw [h.realPath hreal]
          simp only [h.isDirectory hdir, if_true]
          exact hroot
      · simp at hroot

/-- The root of a project that is still there is found where it is. -/
theorem find_projectRoot_of_within {part whole : Tree} (h : part.Within whole)
    (hwf : whole.WellFormed) (hhere : whole.HasDirectory whole.here) (hpart : part.WellFormed)
    (hroot : projectRoot part project = .ok root) :
    ∃ mode, part.find true (Path.text root) = .ok ⟨root, some (.directory mode)⟩ ∧
      part.get? root = some (.directory mode) := by
  obtain ⟨mode, -, hwhole⟩ := find_projectRoot hwf hhere (projectRoot_of_within h hroot)
  unfold projectRoot at hroot
  cases hreal : part.realPath project with
  | error fault => simp [hreal] at hroot
  | ok real =>
      simp only [hreal] at hroot
      split at hroot
      · next hdir =>
          obtain rfl : real = root := by simpa using hroot
          obtain ⟨⟨entry, hfind⟩, -⟩ := realPath_eq_ok_iff.mp hreal
          have hentry : part.get? real = some entry := (find_eq_ok_iff.mp hfind).2.entry_eq
          obtain rfl : entry = .directory mode := by
            simpa [hwhole] using (h.entry _ _ hentry).symm
          obtain ⟨other, mode', hother⟩ := isDirectory_iff.mp hdir
          obtain ⟨rfl, hsame⟩ : other = real ∧ some (.directory mode') = part.get? real := by
            simpa using find_direct (hpart.plain hentry)
              (fun via target hvia => not_link_above hpart hentry (by simp) hvia target) hother
          exact ⟨mode', hother, hsame.symm⟩
      · simp at hroot

/-! ### Members -/

theorem sourceOf?_eq_some_iff {names : Path} {entry : Entry} :
    sourceOf? languages root names entry = some s ↔
      entry.isFile = true ∧ ∃ name extension, names.getLast? = some name ∧
        Path.extension? name = some extension ∧
        (languages.get? (String.ofList (extension.toList.map Char.toLower))).isSome = true ∧
        s = ⟨root ++ names, Path.slashes (Path.relativeText names),
          String.ofList (extension.toList.map Char.toLower)⟩ := by
  unfold sourceOf?
  cases hfile : entry.isFile with
  | false => simp
  | true =>
      cases hlast : names.getLast? with
      | none => simp
      | some name =>
          cases hext : Path.extension? name with
          | none => simp [hext]
          | some extension =>
              cases hget : languages.get? (String.ofList (extension.toList.map Char.toLower)) with
              | none => simp [hext, hget]
              | some language => simpa [hext, hget] using eq_comm

/-- **What a source is**: a file below the root that is not hidden, in a directory that can be
read, with an extension that has a language. -/
theorem mem_sources_iff (hwf : tree.WellFormed) {mode : Nat}
    (hfind : tree.find true (Path.text root) = .ok ⟨root, some (.directory mode)⟩) :
    s ∈ sources languages tree root ↔
      ∃ names mode content, tree.get? (root ++ names) = some (.file mode content) ∧
        (∀ name ∈ names, Path.isHidden name = false) ∧
        Path.isReadable (root ++ names.dropLast) = true ∧
        sourceOf? languages root names (.file mode content) = some s := by
  unfold sources
  rw [List.mem_mergeSort, List.mem_filterMap]
  constructor
  · rintro ⟨⟨names, entry⟩, mem, hsource⟩
    obtain ⟨real, _, hreal, -, hentry, hshown, hread⟩ := (mem_shown_iff hwf).mp mem
    obtain ⟨rfl, -⟩ : real = root ∧ _ := by simpa [hfind, eq_comm] using hreal
    have hfile : entry.isFile = true := (sourceOf?_eq_some_iff.mp hsource).1
    cases entry with
    | file mode content => exact ⟨names, mode, content, hentry, hshown, hread, hsource⟩
    | directory mode => cases hfile
    | link target => cases hfile
  · rintro ⟨names, mode, content, hentry, hshown, hread, hsource⟩
    refine ⟨(names, _), (mem_shown_iff hwf).mpr
      ⟨root, _, hfind, ?_, hentry, hshown, hread⟩, hsource⟩
    rintro rfl
    obtain ⟨-, name, -, hlast, -⟩ := sourceOf?_eq_some_iff.mp hsource
    simp at hlast

/-- Two places below the root are not named alike if no name holds a backslash. -/
theorem pairwise_shown (hwf : tree.WellFormed) (hhere : tree.HasDirectory tree.here)
    (hroot : projectRoot tree project = .ok root)
    (hplain : ∀ e ∈ tree.below root, ∀ name ∈ e.1, '\\' ∉ name.toList) :
    (tree.shown root).Pairwise fun a b =>
      Path.slashes (Path.relativeText a.1) ≠ Path.slashes (Path.relativeText b.1) := by
  have hname {e : Path × Entry} (mem : e ∈ tree.below root) : Path.Plain e.1 :=
    (Path.plain_append.mp (hwf.plain ((mem_below_iff hwf).mp mem).2)).2
  have hslash {e : Path × Entry} (mem : e ∈ tree.below root) :
      Path.slashes (Path.relativeText e.1) = Path.relativeText e.1 :=
    Path.slashes_relativeText (hplain e mem)
  obtain ⟨_, hfind, -⟩ := find_projectRoot hwf hhere hroot
  unfold shown
  rw [under_eq_filter hfind]
  refine ((List.Pairwise.imp_of_mem fun ha hb hne heq => hne ?_)
    (pairwise_below hwf root)).filter _ |>.filter _
  rw [hslash ha, hslash hb] at heq
  exact Path.relativeText_injective (hname ha) (hname hb) heq

/-- Sources come in the order of their paths, whatever the tree is like. -/
theorem pairwise_path (languages : Registry) (tree : Tree) (root : Path) :
    (sources languages tree root).Pairwise fun a b => a.path ≤ b.path :=
  Sorting.pairwise_mergeSort Source.path (fun _ _ => decide_eq_true_iff) _

/-- What tells apart what is shown in a directory tells apart its sources. -/
theorem pairwise_sources_of_shown {r : Source → Source → Prop} (hsymm : ∀ {a b}, r a b → r b a)
    (h : (tree.shown root).Pairwise fun a b => ∀ x ∈ sourceOf? languages root a.1 a.2,
      ∀ y ∈ sourceOf? languages root b.1 b.2, r x y) :
    (sources languages tree root).Pairwise r :=
  (List.Perm.pairwise_iff hsymm (List.mergeSort_perm ..)).mpr (List.pairwise_filterMap.mpr h)

/-- **Sources come in the order of their paths**, each path once. -/
theorem pairwise_sources (hwf : tree.WellFormed) (hhere : tree.HasDirectory tree.here)
    (hroot : projectRoot tree project = .ok root)
    (hplain : ∀ e ∈ tree.below root, ∀ name ∈ e.1, '\\' ∉ name.toList) :
    (sources languages tree root).Pairwise fun a b => a.path < b.path := by
  have hdistinct : (sources languages tree root).Pairwise fun a b => a.path ≠ b.path := by
    refine pairwise_sources_of_shown Ne.symm ((pairwise_shown hwf hhere hroot hplain).imp ?_)
    intro a b hne x hx y hy
    obtain ⟨-, -, -, -, -, -, rfl⟩ := sourceOf?_eq_some_iff.mp hx
    obtain ⟨-, -, -, -, -, -, rfl⟩ := sourceOf?_eq_some_iff.mp hy
    exact hne
  exact (pairwise_path languages tree root).imp₂ (fun a b hle hne => lt_of_le_of_ne hle hne)
    hdistinct

/-- Each place is the place of one source. -/
theorem nodup_places (hwf : tree.WellFormed) {mode : Nat}
    (hfind : tree.find true (Path.text root) = .ok ⟨root, some (.directory mode)⟩) :
    ((sources languages tree root).map (·.place)).Nodup := by
  refine List.pairwise_map.mpr (pairwise_sources_of_shown Ne.symm ?_)
  rw [shown, under_eq_filter hfind]
  refine (((pairwise_below hwf root).filter _).filter _).imp ?_
  intro a b hne x hx y hy
  obtain ⟨-, -, -, -, -, -, rfl⟩ := sourceOf?_eq_some_iff.mp hx
  obtain ⟨-, -, -, -, -, -, rfl⟩ := sourceOf?_eq_some_iff.mp hy
  exact fun heq => hne (List.append_cancel_left heq)

/-- Which sources there are does not depend on how the languages are read. -/
theorem sources_congr {other : Registry}
    (h : ∀ extension, (languages.get? extension).isSome = (other.get? extension).isSome) :
    sources languages tree root = sources other tree root := by
  have hsource (names : Path) (entry : Entry) :
      sourceOf? languages root names entry = sourceOf? other root names entry := by
    ext s
    simp only [sourceOf?_eq_some_iff, h]
  simp only [sources, hsource]

/-- Sources that are found in their order need not be sorted. -/
theorem sources_eq_of_pairwise {found : List Source}
    (h : (tree.shown root).filterMap (fun (names, entry) => sourceOf? languages root names entry) =
      found)
    (hsorted : found.Pairwise fun a b => decide (a.path ≤ b.path) = true) :
    sources languages tree root = found := by
  rw [sources, h, List.mergeSort_of_pairwise hsorted]

/-- A single source need not be sorted. -/
theorem sources_eq_singleton
    (h : (tree.shown root).filterMap (fun (names, entry) => sourceOf? languages root names entry) =
      [s]) : sources languages tree root = [s] :=
  sources_eq_of_pairwise h (List.pairwise_singleton _ _)

/-! ### Sources in a changed tree -/

/-- The source of a project that an entry of the tree is, if it is one. -/
def sourceAt? (languages : Registry) (root : Path) (e : Path × Entry) : Option Source :=
  if root.isPrefixOf e.1 && e.1 != root && Path.isReadable e.1.dropLast &&
      !(e.1.drop root.length).any Path.isHidden then
    sourceOf? languages root (e.1.drop root.length) e.2
  else none

theorem sources_eq {mode : Nat}
    (hfind : tree.find true (Path.text root) = .ok ⟨root, some (.directory mode)⟩) :
    sources languages tree root = (tree.entries.filterMap (sourceAt? languages root)).mergeSort
      fun a b => decide (a.path ≤ b.path) := by
  rw [sources, shown, under_eq_filter hfind, below, List.filter_filterMap, List.filter_filterMap,
    List.filterMap_filterMap]
  congr 1
  refine List.filterMap_congr fun e _ => ?_
  obtain ⟨path, entry⟩ := e
  unfold sourceAt?
  cases hbelow : root.isPrefixOf path && path != root with
  | false => simp [hbelow]
  | true =>
      obtain ⟨⟨rest, rfl⟩, hne⟩ : root <+: path ∧ path ≠ root := by
        simpa [List.isPrefixOf_iff_prefix] using hbelow
      have hparent : (root ++ rest).dropLast = root ++ rest.dropLast :=
        List.dropLast_append_of_ne_nil (by simpa using hne)
      cases hread : Path.isReadable (root ++ rest.dropLast) with
      | false => simp [hbelow, hparent, hread]
      | true =>
          cases hhidden : rest.any Path.isHidden with
          | false => simp [hbelow, hparent, hread, hhidden, Option.filter_some]
          | true =>
              simp [hbelow, hparent, hread, hhidden, Option.filter_some, -List.any_eq_true]

theorem place_of_sourceAt? {e : Path × Entry} (h : sourceAt? languages root e = some s) :
    s.place = e.1 := by
  unfold sourceAt? at h
  split at h
  · next hbelow =>
      obtain ⟨⟨⟨⟨rest, hrest⟩, -⟩, -⟩, -⟩ : ((root <+: e.1 ∧ e.1 ≠ root) ∧ _) ∧ _ := by
        simpa [List.isPrefixOf_iff_prefix] using hbelow
      obtain ⟨-, _, _, -, -, -, rfl⟩ := sourceOf?_eq_some_iff.mp h
      simp [← hrest]
  · simp at h

/-- Directories that are made anew are no sources. -/
theorem sources_of_grown {inside : Path → Prop} {after : Tree} {mode mode' : Nat}
    (h : Grown inside tree after)
    (hfind : tree.find true (Path.text root) = .ok ⟨root, some (.directory mode)⟩)
    (hafter : after.find true (Path.text root) = .ok ⟨root, some (.directory mode')⟩) :
    sources languages after root = sources languages tree root := by
  have hentries : after.entries.filterMap (sourceAt? languages root) =
      tree.entries.filterMap (sourceAt? languages root) := by
    clear hafter
    induction h with
    | same => rfl
    | @made after path _ hfree _ _ _ ih =>
        have hnone : sourceAt? languages root (path, .directory directoryMode) = none := by
          simp [sourceAt?, sourceOf?, Entry.isFile]
        rw [put, putIn_of_not_mem (not_mem_of_get?_eq_none hfree), List.filterMap_append, ih]
        simp [hnone]
  rw [sources_eq hafter, sources_eq hfind, hentries]

/-- Where all sources are still there when something was cleared away, they are the same. -/
theorem sources_of_cleared {text : String} {after : Tree} {mode mode' : Nat}
    (h : tree.Cleared text after) (hwf : tree.WellFormed)
    (hfind : tree.find true (Path.text root) = .ok ⟨root, some (.directory mode)⟩)
    (hafter : after.find true (Path.text root) = .ok ⟨root, some (.directory mode')⟩)
    (hthere : ∀ s ∈ sources languages tree root, ∃ entry, after.get? s.place = some entry) :
    sources languages after root = sources languages tree root := by
  obtain ⟨keep, hkeep⟩ : ∃ keep : Path × Entry → Bool, after.entries = tree.entries.filter keep := by
    rcases h.cases with ⟨_, _, -, rfl⟩ | ⟨_, _, -, rfl⟩ | ⟨-, rfl⟩
    · exact ⟨_, rfl⟩
    · exact ⟨_, rfl⟩
    · exact ⟨fun _ => true, by simp⟩
  rw [sources_eq hfind] at hthere
  rw [sources_eq hafter, sources_eq hfind, hkeep, List.filterMap_filter]
  congr 1
  refine List.filterMap_congr fun e mem => ?_
  cases hsource : sourceAt? languages root e with
  | none => simp
  | some s =>
      -- Something is at the place of the entry, and there is one entry for each place.
      obtain ⟨entry, hentry⟩ := hthere s (by simpa using ⟨_, _, mem, hsource⟩)
      rw [place_of_sourceAt? hsource] at hentry
      have hmem := mem_of_get?_eq_some (hwf.named e mem).1 hentry
      rw [hkeep] at hmem
      obtain ⟨hbefore, hkept⟩ := List.mem_filter.mp hmem
      rw [List.inj_on_of_nodup_map hwf.distinct hbefore mem rfl] at hkept
      exact if_pos hkept

end Index

end Workbench
