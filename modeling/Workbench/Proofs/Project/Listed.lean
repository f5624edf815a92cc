/-
# Listed places

A listing names what lies in a directory of a project, relative to the root, and such a
name can be given back as a path. It leads to the place that it was given for unless a
name on the way from the root holds a backslash: in the listing that is written as a
slash, so the path leads elsewhere, and the name may be one of another place as well.

* `Project.resolve_listed_iff` — **which names lead back**.
* `Project.listings_lead_back` — all of it, for both kinds of listings and for sources.
-/

import Workbench.Proofs.Index.Sources

namespace Workbench

open Workbench.Files Workbench.Files.Tree Workbench.Code Workbench.Index

variable {tree : Tree} {project : Project} {root directory real names : Path} {text said : String}
  {entry : Entry}

namespace Project

/-- A directory of a project, and where it really lies: in the project, if it can be told. -/
structure Holds (project : Project) (tree : Tree) (directory real : Path) : Prop where
  plain : Path.Plain directory
  below : project.root <+: directory
  found : ∃ mode, tree.find true (Path.text directory) = .ok ⟨real, some (.directory mode)⟩
  inside : tree.leadsFar (Path.text directory) = false → project.root <+: real

theorem holds_of_resolve (hwf : tree.WellFormed) (hroot : tree.HasDirectory project.root)
    (hres : project.resolve tree text = .ok directory) {mode : Nat}
    (hfind : tree.find true (Path.text directory) = .ok ⟨real, some (.directory mode)⟩) :
    project.Holds tree directory real := by
  obtain ⟨up, found, hr⟩ := resolve_eq_ok_iff.mp hres
  have hthere := isThere_iff.mpr ⟨_, _, hfind⟩
  obtain ⟨_, hreal⟩ := hr.find_eq hthere
  obtain ⟨rfl, -⟩ : real = found ∧ _ := by simpa [hfind] using hreal
  obtain rfl := hr.eq_of_isThere hthere
  exact ⟨hr.plain (plain_root hwf hroot), hr.below, ⟨mode, hfind⟩, hr.inside⟩

/-- The root of a project lies where it is written. -/
theorem holds_root (hwf : tree.WellFormed) (hroot : tree.HasDirectory project.root) {mode : Nat}
    (hfind : tree.find true (Path.text project.root) = .ok ⟨real, some (.directory mode)⟩) :
    project.Holds tree project.root real := by
  obtain ⟨_, hmode⟩ := hasDirectory_iff.mp hroot
  have hplain := plain_root hwf hroot
  obtain ⟨rfl, -⟩ : real = project.root ∧ _ := by
    simpa using find_direct hplain
      (fun _ target hvia => not_link_above hwf hmode (by simp) hvia target) hfind
  exact ⟨hplain, List.prefix_refl _, ⟨mode, hfind⟩, fun _ => List.prefix_refl _⟩

section Holds

variable (hwf : tree.WellFormed) (h : project.Holds tree directory real)
  (hentry : tree.get? (real ++ names) = some entry) (hno : ∀ target, entry ≠ .link target)

include hwf h hentry

theorem Holds.plain_append : Path.Plain (directory ++ names) :=
  Path.plain_append.mpr ⟨h.plain, (Path.plain_append.mp (hwf.plain hentry)).2⟩

include hno

/-- A path that spells a place below a directory of a project is accepted. -/
theorem Holds.resolve_eq_ok_iff : project.resolve tree said = .ok (directory ++ names) ↔
    Path.cancel (project.namesOf said) = some (directory ++ names) := by
  constructor
  · intro hres
    obtain ⟨_, _, hr⟩ := Project.resolve_eq_ok_iff.mp hres
    exact hr.spelled
  · intro hspelled
    obtain ⟨mode, hfind⟩ := h.found
    obtain ⟨up, place, -, ha⟩ := anchor_eq tree (directory ++ names)
    -- The directory is there, so the deepest part that is there lies in it.
    obtain ⟨part, rfl⟩ :=
      ha.deepest directory (List.prefix_append ..) (isThere_iff.mpr ⟨_, _, hfind⟩)
    obtain ⟨_, hplace⟩ := ha.found
    have hreal : place = real ++ part :=
      find_below hwf (h.plain_append hwf hentry) hfind hentry hno
        ((List.prefix_append_right_inj _).mp ha.reached) hplace
    refine Project.resolve_eq_ok_iff.mpr ⟨_, place, hspelled,
      h.below.trans (List.prefix_append ..), ha, fun htold => ?_⟩
    -- If it can be told where that part lies, it can be told of the directory.
    have hinside : project.root <+: real := h.inside <| (Bool.not_eq_true _).mp fun hfar =>
      absurd (leadsFar_of_isPrefix ((h.plain_append hwf hentry).of_isPrefix ha.reached)
        (List.prefix_append ..) hfar) (by simp [htold])
    rw [hreal]
    exact hinside.trans (List.prefix_append ..)

end Holds

/-! ### Names that lead back -/

/-- No name on the way from the root to a place holds a backslash. -/
def Spellable (project : Project) (path : Path) : Prop :=
  ∀ name ∈ path.drop project.root.length, '\\' ∉ name.toList

instance (project : Project) (path : Path) : Decidable (project.Spellable path) :=
  inferInstanceAs (Decidable (∀ name ∈ _, _))

/-- The names below the root of what a path spells are read from it. -/
theorem mem_names_of_spelled (hroot : Path.Plain project.root) {path : Path}
    (h : Path.cancel (project.namesOf said) = some path) :
    ∀ name ∈ path.drop project.root.length, name ∈ Path.names said := by
  intro name mem
  unfold namesOf at h
  split at h
  · exact Path.mem_drop_of_cancel Path.plain_nil h name (List.mem_of_mem_drop mem)
  · exact Path.mem_drop_of_cancel hroot h name mem

/-- **Which texts spell a place below the root**: names with slashes between them, if they
hold no backslash. -/
theorem spelled_iff {rest : Path} {ending : String} (hroot : Path.Plain project.root)
    (hplain : Path.Plain rest) (hne : rest ≠ []) (hending : ending = "" ∨ ending = "/") :
    Path.cancel (project.namesOf (Path.slashes (Path.relativeText rest) ++ ending)) =
        some (project.root ++ rest) ↔ project.Spellable (project.root ++ rest) := by
  have hnames (text : String) : Path.names (text ++ ending) = Path.names text := by
    rcases hending with rfl | rfl
    · rw [String.append_empty]
    · exact Path.names_append_end text
  unfold Spellable
  rw [List.drop_left]
  constructor
  · intro h name mem hslash
    have hread : name ∈ Path.names (Path.slashes (Path.relativeText rest)) := by
      rw [← hnames]
      exact mem_names_of_spelled hroot h name (by simpa using mem)
    exact Path.not_mem_slashes _ (Path.mem_of_mem_names hread _ hslash)
  · intro hclear
    rw [Path.slashes_relativeText hclear, namesOf,
      if_neg (by simp [Path.isAbsolute_relativeText hplain hne]), hnames,
      Path.names_relativeText hplain]
    exact Path.cancel_plain (Path.plain_append.mpr ⟨hroot, hplain⟩)

/-- What a listing says of a place leads back to it, and tells whether it is a directory. -/
structure LeadsBack (project : Project) (tree : Tree) (item : Item) : Prop where
  resolved : project.resolve tree (item.text project.root) = .ok item.path
  ending : (∃ before, item.text project.root = before ++ "/") ↔ item.isDirectory = true

theorem text_itemOf {rest : Path} (e : Path × Entry) :
    (itemOf (root ++ rest) e).text root =
      Path.slashes (Path.relativeText (rest ++ e.1)) ++ if e.2.isDirectory then "/" else "" := by
  simp [itemOf, Item.text, Path.relativeTo]

/-- **Which names lead back**: those of places that no backslash is on the way to. -/
theorem resolve_listed_iff (hwf : tree.WellFormed) (h : project.Holds tree directory real)
    (hne : names ≠ []) (hentry : tree.get? (real ++ names) = some entry)
    (hno : ∀ target, entry ≠ .link target) :
    project.resolve tree ((itemOf directory (names, entry)).text project.root) =
        .ok (directory ++ names) ↔ project.Spellable (directory ++ names) := by
  rw [h.resolve_eq_ok_iff hwf hentry hno]
  have hplain := h.plain_append hwf hentry
  obtain ⟨rest, rfl⟩ := h.below
  rw [List.append_assoc] at hplain ⊢
  obtain ⟨hroot, hrest⟩ := Path.plain_append.mp hplain
  rw [text_itemOf]
  refine spelled_iff hroot hrest (by simp [hne]) ?_
  split
  · exact .inr rfl
  · exact .inl rfl

theorem leadsBack_iff (hwf : tree.WellFormed) (h : project.Holds tree directory real)
    (hne : names ≠ []) (hentry : tree.get? (real ++ names) = some entry)
    (hno : ∀ target, entry ≠ .link target) :
    project.LeadsBack tree (itemOf directory (names, entry)) ↔
      project.Spellable (directory ++ names) := by
  refine ⟨fun hback => (resolve_listed_iff hwf h hne hentry hno).mp hback.resolved,
    fun hclear => ⟨(resolve_listed_iff hwf h hne hentry hno).mpr hclear, ?_⟩⟩
  have hplain := h.plain_append hwf hentry
  obtain ⟨rest, rfl⟩ := h.below
  unfold Spellable at hclear
  rw [List.append_assoc] at hplain hclear
  rw [List.drop_left] at hclear
  rw [text_itemOf, Path.slashes_relativeText hclear]
  cases hdir : entry.isDirectory with
  | true => simp [itemOf, hdir]
  | false =>
      simpa [itemOf, hdir] using
        Path.relativeText_ne_append_end (Path.plain_append.mp hplain).2 (by simp [hne])

/-! ### Listings -/

/-- Sources are named as a listing of the root names them. -/
theorem exists_regular_of_mem_sources {languages : Registry} {s : Source}
    (h : s ∈ sources languages tree root) :
    ∃ e ∈ tree.regular root, s.place = root ++ e.1 ∧ s.path = (itemOf root e).text root := by
  obtain ⟨⟨names, entry⟩, mem, hsource⟩ := List.mem_filterMap.mp (List.mem_mergeSort.mp h)
  obtain ⟨hfile, _, _, -, -, -, rfl⟩ := sourceOf?_eq_some_iff.mp hsource
  refine ⟨(names, entry), List.mem_filter.mpr ⟨mem, by simp [hfile]⟩, rfl, ?_⟩
  have hno : entry.isDirectory = false := by
    cases entry <;> simp_all [Entry.isFile, Entry.isDirectory]
  have htext : (itemOf (root ++ []) (names, entry)).text root = _ := text_itemOf (names, entry)
  simpa [hno] using htext.symm

/-- Two things that are shown in a directory are named apart if their names lead back. -/
theorem eq_of_text_eq (hwf : tree.WellFormed) {e other : Path × Entry}
    (he : e ∈ tree.shown directory) (ho : other ∈ tree.shown directory)
    (hback : project.LeadsBack tree (itemOf directory e))
    (hother : project.LeadsBack tree (itemOf directory other))
    (htext : (itemOf directory e).text project.root = (itemOf directory other).text project.root) :
    e = other := by
  have hpath := hback.resolved.symm.trans (htext ▸ hother.resolved)
  have hnames : e.1 = other.1 := by simpa [itemOf] using hpath
  obtain ⟨real, _, hfind, -, hentry, -⟩ := (mem_shown_iff hwf).mp he
  obtain ⟨real', _, hfind', -, hentry', -⟩ := (mem_shown_iff hwf).mp ho
  obtain ⟨rfl, -⟩ : real = real' ∧ _ := by simpa [hfind] using hfind'
  rw [hnames, hentry'] at hentry
  exact Prod.ext hnames (Option.some.inj hentry).symm

/-- **Listed names are given back as paths.** The entries of a listing are the names of what
is shown in the directory. Files and directories whose names lead back are those that no
backslash is on the way to from the root, and no two of them are named alike. The same is
true of sources, which are named as in a listing of the root. -/
theorem listings_lead_back (languages : Registry) (hwf : tree.WellFormed)
    (hroot : tree.HasDirectory project.root)
    (accepted : project.resolve tree text = .ok directory) :
    (∀ count said, said ∈ levels tree project.root directory count ↔
      ∃ e ∈ tree.shown directory, e.1.length ≤ max count 1 ∧
        (itemOf directory e).text project.root = said) ∧
    (∀ depth limit, ∀ said ∈ (list tree project.root directory depth limit).entries,
      ∃ e ∈ tree.shown directory, (itemOf directory e).text project.root = said) ∧
    (∀ e ∈ tree.regular directory,
      project.LeadsBack tree (itemOf directory e) ↔ project.Spellable (directory ++ e.1)) ∧
    (∀ e ∈ tree.regular directory, ∀ other ∈ tree.regular directory,
      project.Spellable (directory ++ e.1) → project.Spellable (directory ++ other.1) →
      (itemOf directory e).text project.root = (itemOf directory other).text project.root →
      e = other) ∧
    (∀ s ∈ sources languages tree project.root,
      project.resolve tree s.path = .ok s.place ↔ project.Spellable s.place) ∧
    (∀ s ∈ sources languages tree project.root, ∀ other ∈ sources languages tree project.root,
      project.Spellable s.place → project.Spellable other.place → s.path = other.path →
      s.place = other.place) := by
  have hback (e : Path × Entry) (he : e ∈ tree.regular directory) :
      project.LeadsBack tree (itemOf directory e) ↔ project.Spellable (directory ++ e.1) := by
    obtain ⟨hshown, hno⟩ := mem_regular_iff.mp he
    obtain ⟨real, _, hfind, hne, hentry, -⟩ := (mem_shown_iff hwf).mp hshown
    exact leadsBack_iff hwf (holds_of_resolve hwf hroot accepted hfind) hne hentry hno
  have hsource (s : Source) (hs : s ∈ sources languages tree project.root) :
      project.resolve tree s.path = .ok s.place ↔ project.Spellable s.place := by
    obtain ⟨e, he, hplace, hpath⟩ := exists_regular_of_mem_sources hs
    obtain ⟨hshown, hno⟩ := mem_regular_iff.mp he
    obtain ⟨real, _, hfind, hne, hentry, -⟩ := (mem_shown_iff hwf).mp hshown
    rw [hplace, hpath]
    exact resolve_listed_iff hwf (holds_root hwf hroot hfind) hne hentry hno
  refine ⟨fun _ _ => mem_levels_iff, fun _ _ _ => mem_of_mem_list, hback, ?_, hsource, ?_⟩
  · intro e he other ho hclear hclear' htext
    exact eq_of_text_eq hwf (mem_regular_iff.mp he).1 (mem_regular_iff.mp ho).1
      ((hback e he).mpr hclear) ((hback other ho).mpr hclear') htext
  · intro s hs other ho hclear hclear' hpath
    have hres := (hsource s hs).mpr hclear
    rw [hpath, (hsource other ho).mpr hclear'] at hres
    exact (Except.ok.inj hres).symm

/-- A project with a file in a directory, and a file with a backslash in its name. -/
def backslashTree : Tree :=
  ⟨[(["p"], .directory 0o755), (["p", "a"], .directory 0o755),
    (["p", "a", "b.py"], .file 0o644 (.text "x\n")),
    (["p", "a\\b.py"], .file 0o644 (.text "y\n"))], []⟩

def backslashProject : Project := ⟨["p"], "p", none⟩

theorem listings_lead_back_backslashTree :
    backslashTree.WellFormed ∧ backslashTree.HasDirectory backslashProject.root ∧
    backslashProject.resolve backslashTree "." = .ok ["p"] ∧
    backslashProject.resolve backslashTree
      ((itemOf ["p"] (["a", "b.py"], .file 0o644 (.text "x\n"))).text ["p"]) =
        .ok ["p", "a", "b.py"] := by
  have hwf : backslashTree.WellFormed := by decide
  have hroot : backslashTree.HasDirectory backslashProject.root := by decide
  have hres : backslashProject.resolve backslashTree "." = .ok ["p"] := by decide +kernel
  refine ⟨hwf, hroot, hres, ?_⟩
  obtain ⟨-, -, hback, -⟩ := listings_lead_back .empty hwf hroot hres
  exact ((hback (["a", "b.py"], .file 0o644 (.text "x\n")) (by decide +kernel)).mpr
    (by decide +kernel)).resolved

/-- Both files are listed under one name, and it leads to one of them. -/
theorem listed_alike_backslashTree :
    backslashTree.WellFormed ∧ backslashTree.HasDirectory backslashProject.root ∧
    backslashProject.resolve backslashTree "." = .ok ["p"] ∧
    (["a", "b.py"], .file 0o644 (.text "x\n")) ∈ backslashTree.regular ["p"] ∧
    (["a\\b.py"], .file 0o644 (.text "y\n")) ∈ backslashTree.regular ["p"] ∧
    levels backslashTree ["p"] ["p"] 3 = ["a/", "a/b.py", "a/b.py"] ∧
    (list backslashTree ["p"] ["p"] none 100).entries = ["a/", "a/b.py"] ∧
    (∀ g, sources (.builtin g) backslashTree ["p"] =
      [⟨["p", "a", "b.py"], "a/b.py", "py"⟩, ⟨["p", "a\\b.py"], "a/b.py", "py"⟩]) ∧
    backslashProject.resolve backslashTree "a/b.py" = .ok ["p", "a", "b.py"] := by
  have hitems : (backslashTree.items ["p"]).map (Item.text ["p"]) =
      ["a/", "a/b.py", "a/b.py"] := by decide +kernel
  have hsorted : sorted ["a/", "a/b.py", "a/b.py"] = ["a/", "a/b.py", "a/b.py"] :=
    sorted_eq_self (by decide +kernel)
  have hlevels : levels backslashTree ["p"] ["p"] 3 = ["a/", "a/b.py", "a/b.py"] :=
    (congrArg sorted (by decide +kernel)).trans hsorted
  have hentries : entriesTo (backslashTree.items ["p"]) ["p"] none = ["a/", "a/b.py"] := by
    rw [entriesTo, List.filter_true, hitems, hsorted]
    decide
  have hplain : sources (.builtin .plain) backslashTree ["p"] =
      [⟨["p", "a", "b.py"], "a/b.py", "py"⟩, ⟨["p", "a\\b.py"], "a/b.py", "py"⟩] :=
    sources_eq_of_pairwise (by decide +kernel) (by decide +kernel)
  refine ⟨by decide, by decide, by decide +kernel, by decide +kernel, by decide +kernel, hlevels,
    by simp [list, listOf, hentries], fun g => ?_, by decide +kernel⟩
  rw [sources_congr, hplain]
  intro extension
  rw [Registry.isSome_get?_builtin, Registry.isSome_get?_builtin]

end Project

end Workbench
