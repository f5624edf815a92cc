/-
# Which files are indexed

A valid configuration lists the extensions of the files that are indexed, in any spelling.
The sources of a project are then all its files with one of them, unless they are hidden or
lie in a directory that is.

* `Path.not_mem_of_extension?` — an extension has no dots of its own.
* `Config.Valid.isSome_select_iff` — the languages of a valid configuration.
* `CodebaseIndex.sources_exact` — **the sources of a project**.
-/

import Mathlib.Tactic.SplitIfs
import Workbench.Config.Basic
import Workbench.Proofs.Code.Registering
import Workbench.Proofs.Config.Bounds
import Workbench.Proofs.Index.Building
import Workbench.Proofs.Index.Grammars

namespace Workbench

open Workbench.Files Workbench.Files.Tree Workbench.Code Workbench.Config

/-! ### Extensions -/

namespace Files.Path

theorem not_mem_of_atLastDot?_eq_none {s : List Char} (h : atLastDot? s = none) : '.' ∉ s := by
  induction s with
  | nil => exact List.not_mem_nil
  | cons c rest ih =>
      rw [atLastDot?] at h
      cases hrest : atLastDot? rest with
      | some split => simp [hrest] at h
      | none =>
          have hc : c ≠ '.' := by simpa [hrest] using h
          exact List.not_mem_cons_of_ne_of_not_mem hc.symm (ih hrest)

theorem not_mem_of_atLastDot? {s before after : List Char}
    (h : atLastDot? s = some (before, after)) : '.' ∉ after := by
  induction s generalizing before with
  | nil => cases h
  | cons c rest ih =>
      rw [atLastDot?] at h
      cases hrest : atLastDot? rest with
      | some split =>
          obtain ⟨-, rfl⟩ : c :: split.1 = before ∧ split.2 = after := by simpa [hrest] using h
          exact ih hrest
      | none =>
          obtain ⟨-, -, rfl⟩ : c = '.' ∧ [] = before ∧ rest = after := by simpa [hrest] using h
          exact not_mem_of_atLastDot?_eq_none hrest

/-- An extension has no dots of its own. -/
theorem not_mem_of_extension? {name extension : String} (h : extension? name = some extension) :
    '.' ∉ extension.toList := by
  unfold extension? at h
  split at h
  · next hsplit =>
      obtain rfl := Option.some.inj h
      rw [String.toList_ofList]
      exact not_mem_of_atLastDot? hsplit
  · cases h

end Files.Path

/-- The extensions of a valid configuration have languages. -/
theorem Config.Valid.isSome_get? {c : Config} {extension : String} (h : c.Valid)
    (mem : extension ∈ c.index.extensions) (g : Grammars) :
    ((Registry.builtin g).get? extension).isSome = true := by
  have hindex := h.indexFault?_eq_none
  unfold indexFault? at hindex
  split_ifs at hindex
  have hfind := List.find?_eq_none.mp (Option.map_eq_none_iff.mp hindex)
  rw [Registry.isSome_get?_builtin]
  simpa using hfind extension mem

/-! ### Sources -/

namespace Index

variable {σ : Type} {c : Config} {ix : CodebaseIndex σ} {tree : Tree} {root names : Path}
  {project : String} {s : Source}

/-- What is at these names below a directory is to be indexed: a file, not a link, of which
no name is hidden and the extension is one of the listed ones. -/
structure Selected (extensions : List String) (tree : Tree) (root names : Path) : Prop where
  file : ∃ mode content, tree.get? (root ++ names) = some (.file mode content)
  shown : ∀ name ∈ names, Path.isHidden name = false
  listed : ∃ name extension, names.getLast? = some name ∧ Path.extension? name = some extension ∧
    ∃ e ∈ extensions, normalExtension e = lowered extension

/-- The source at names below a directory that end in a name with an extension. -/
structure Source.At (s : Source) (root names : Path) : Prop where
  place : s.place = root ++ names
  path : s.path = Path.slashes (Path.relativeText names)
  extension : (names.getLast?.bind Path.extension?).map lowered = some s.extension

namespace CodebaseIndex

/-- The languages of a valid configuration are those of its extensions. -/
theorem isSome_languages_iff {extension : String} (hvalid : c.Valid)
    (hsettings : ix.settings = c.index) (hdots : '.' ∉ extension.toList) :
    (ix.languages.get? (lowered extension)).isSome = true ↔
      ∃ e ∈ c.index.extensions, normalExtension e = lowered extension := by
  rw [languages, hsettings, Registry.get?_select, normalExtension_lowered hdots]
  constructor
  · intro h
    split at h
    · next hlisted => exact hlisted
    · cases h
  · rintro ⟨e, mem, hnormal⟩
    rw [if_pos ⟨e, mem, hnormal⟩]
    have hknown := hvalid.isSome_get? mem ix.grammars
    rwa [Registry.get?_congr (hnormal.trans (normalExtension_lowered hdots).symm)] at hknown

theorem mem_sources_iff_selected (hvalid : c.Valid) (hsettings : ix.settings = c.index)
    (hwf : tree.WellFormed) (hhere : tree.HasDirectory tree.here)
    (hroot : projectRoot tree project = .ok root) :
    s ∈ sources ix.languages tree root ↔
      ∃ names, Selected c.index.extensions tree root names ∧
        Path.isReadable (root ++ names.dropLast) = true ∧ s.At root names := by
  obtain ⟨mode, hfind, -⟩ := find_projectRoot hwf hhere hroot
  rw [mem_sources_iff hwf hfind]
  constructor
  · rintro ⟨names, mode, content, hentry, hshown, hread, hsource⟩
    obtain ⟨-, name, extension, hlast, hext, hlanguage, rfl⟩ := sourceOf?_eq_some_iff.mp hsource
    have hlisted := (isSome_languages_iff hvalid hsettings (Path.not_mem_of_extension? hext)).mp
      hlanguage
    refine ⟨names, ⟨⟨mode, content, hentry⟩, hshown, name, extension, hlast, hext, hlisted⟩,
      hread, rfl, rfl, ?_⟩
    rw [hlast, Option.bind_some, hext]
    rfl
  · rintro ⟨names, ⟨⟨mode, content, hentry⟩, hshown, name, extension, hlast, hext, hlisted⟩,
      hread, hplace, hpath, hextension⟩
    refine ⟨names, mode, content, hentry, hshown, hread, sourceOf?_eq_some_iff.mpr ⟨rfl, name, extension,
      hlast, hext, ?_, ?_⟩⟩
    · exact (isSome_languages_iff hvalid hsettings (Path.not_mem_of_extension? hext)).mpr hlisted
    · rw [hlast, Option.bind_some, hext] at hextension
      obtain ⟨place, path, found⟩ := s
      obtain rfl : place = root ++ names := hplace
      obtain rfl : path = Path.slashes (Path.relativeText names) := hpath
      obtain rfl : lowered extension = found := Option.some.inj hextension
      rfl

/-- **The sources of a project** are the files with a listed extension that are not hidden and
lie in directories that can be read, each once and in the order of their paths; and a build
never finds one without a language. -/
theorem sources_exact (c : Config) (ix : CodebaseIndex σ) (tree : Tree) (project : String)
    (root : Path) (hvalid : c.Valid) (hsettings : ix.settings = c.index) (hwf : tree.WellFormed)
    (hhere : tree.HasDirectory tree.here) (hroot : projectRoot tree project = .ok root) :
    (∀ s, s ∈ sources ix.languages tree root ↔
      ∃ names, Selected c.index.extensions tree root names ∧
        Path.isReadable (root ++ names.dropLast) = true ∧ s.At root names) ∧
    ((sources ix.languages tree root).map (·.place)).Nodup ∧
    (sources ix.languages tree root).Pairwise (fun a b => a.path ≤ b.path) ∧
    ∀ stamp collection state extension,
      (ix.build stamp tree project collection state).result ≠
        .error (.build (.noGrammar extension)) := by
  obtain ⟨mode, hfind, -⟩ := find_projectRoot hwf hhere hroot
  refine ⟨?_, nodup_places hwf hfind, pairwise_path .., ?_⟩
  · intro s
    exact mem_sources_iff_selected hvalid hsettings hwf hhere hroot
  · intro stamp collection state extension hfault
    have hforeign := understood_build stamp tree project collection state _ hfault
    cases hforeign

/-! ### A sample -/

/-- A configuration that lists extensions in unusual spellings. -/
def dottedConfig : Config :=
  { runtimeDir := "/r", index := { extensions := ["..PY", "Rs"] } }

/-- The index of the configuration. -/
def dottedIndex : CodebaseIndex Unit :=
  ⟨"/r", dottedConfig.index, ⟨"sample", 1, fun texts _ => (.ok (texts.map sampleVector), ())⟩,
    .plain⟩

/-- A project with a source in a directory, one in a hidden directory, and a link. -/
def dottedTree : Tree :=
  ⟨[(["p"], .directory 0o755), (["p", "src"], .directory 0o755),
    (["p", "src", "a.b.Py"], .file 0o644 (.text "x\n")), (["p", ".git"], .directory 0o755),
    (["p", ".git", "c.py"], .file 0o644 (.text "y\n")), (["p", "d.py"], .link "src/a.b.Py")], []⟩

theorem sources_exact_dottedTree :
    dottedConfig.Valid ∧ dottedTree.WellFormed ∧
    ⟨["p", "src", "a.b.Py"], "src/a.b.Py", "py"⟩ ∈ sources dottedIndex.languages dottedTree ["p"] ∧
    ∀ s ∈ sources dottedIndex.languages dottedTree ["p"],
      s.place ≠ ["p", ".git", "c.py"] ∧ s.place ≠ ["p", "d.py"] := by
  have hvalid : dottedConfig.fault? = none := by decide +kernel
  have hwf : dottedTree.WellFormed := by decide
  obtain ⟨hmem, -, -, -⟩ := sources_exact dottedConfig dottedIndex dottedTree "/p" ["p"] hvalid rfl
    hwf (by decide) (by decide +kernel)
  refine ⟨hvalid, hwf, ?_, ?_⟩
  · apply (hmem _).mpr
    refine ⟨["src", "a.b.Py"], ?_, by decide +kernel, rfl, by decide, by decide⟩
    constructor
    · exact ⟨0o644, .text "x\n", rfl⟩
    · decide +kernel
    · exact ⟨"a.b.Py", "Py", rfl, by decide, "..PY", .head _, by decide⟩
  · intro s hs
    obtain ⟨names, ⟨⟨mode, content, hentry⟩, hshown, -⟩, -, hplace, -⟩ := (hmem s).mp hs
    rw [hplace]
    constructor
    · intro hhidden
      obtain rfl : names = [".git", "c.py"] := (List.cons.inj hhidden).2
      exact absurd (hshown ".git" (.head _)) (by decide +kernel)
    · intro hlink
      obtain rfl : names = ["d.py"] := (List.cons.inj hlink).2
      cases hentry

end CodebaseIndex

end Index

end Workbench
