/-
# Projects without links

When no link lies in a project, a path in it leads to the place it spells, so what is
written there and what the path is resolved to do not depend on the rest of the tree.

* `Project.Linkless.find_eq` — paths lead to the places they spell.
* `Project.Linkless.resolve_iff` — which paths are accepted is a matter of their spelling.
* `Project.Linkless.rewrite_cases` — what rewriting a file of the project does.
-/

import Workbench.Proofs.Project.Resolving

namespace Workbench.Project

open Workbench.Files Workbench.Files.Tree

/-- A project in a tree, with no link in it. -/
structure Linkless (project : Project) (tree : Tree) : Prop where
  wellFormed : tree.WellFormed
  root : tree.HasDirectory project.root
  no_link : ∀ path target, project.root <+: path → tree.get? path ≠ some (.link target)

theorem linkless_iff {project : Project} {tree : Tree} :
    project.Linkless tree ↔ tree.WellFormed ∧ tree.HasDirectory project.root ∧
      ∀ e ∈ tree.entries, project.root <+: e.1 → e.2.isFile || e.2.isDirectory := by
  constructor
  · rintro ⟨hwf, hroot, hno⟩
    refine ⟨hwf, hroot, fun e mem hin => ?_⟩
    have hentry := hwf.get?_of_mem mem
    cases he : e.2 with
    | file => simp [Entry.isFile]
    | directory => simp [Entry.isDirectory]
    | link target => exact absurd (he ▸ hentry) (hno e.1 target hin)
  · rintro ⟨hwf, hroot, hentries⟩
    refine ⟨hwf, hroot, fun path target hin hlink => ?_⟩
    have hne : path ≠ [] := by
      rintro rfl
      simp at hlink
    simpa [Entry.isFile, Entry.isDirectory] using hentries _ (mem_of_get?_eq_some hne hlink) hin

instance (project : Project) (tree : Tree) : Decidable (project.Linkless tree) :=
  decidable_of_iff _ linkless_iff.symm

namespace Linkless

variable {project : Project} {tree after : Tree} {path place : Path} {text : String}
  {entry : Entry} {inside : Path → Prop}

/-- No link lies on the way to a place in the project. -/
theorem not_link (h : project.Linkless tree) (hin : project.root <+: path) {via : Path}
    (hvia : via <+: path) (target : String) : tree.get? via ≠ some (.link target) := by
  rcases List.prefix_or_prefix_of_prefix hvia hin with hup | hdown
  · obtain ⟨mode, hmode⟩ := hasDirectory_iff.mp h.root
    exact not_link_above h.wellFormed hmode (by simp) hup target
  · exact h.no_link via target hdown

/-- A path leads to the place it spells. -/
theorem find_eq (h : project.Linkless tree) (hin : project.root <+: path)
    (hplain : Path.Plain path) {follow : Bool} {found : Place}
    (hfind : tree.find follow (Path.text path) = .ok found) : found = ⟨path, tree.get? path⟩ :=
  find_direct hplain (fun _ target hvia => h.not_link hin hvia target) hfind

/-! ### Changes -/

theorem grown (h : project.Linkless tree) (hgrown : Grown inside tree after) :
    project.Linkless after where
  wellFormed := hgrown.wellFormed h.wellFormed
  root := hgrown.hasDirectory h.root
  no_link path target hin := by
    rcases hgrown.get?_cases path with hsame | ⟨-, hnew, -⟩
    · rw [hsame]
      exact h.no_link path target hin
    · simp [hnew]

theorem put (h : project.Linkless tree) (hr : Rewritable path)
    (hparent : tree.HasDirectory path.dropLast) (hno : ¬ tree.HasDirectory path)
    (hfile : entry.isFile = true) : project.Linkless (tree.put path entry) where
  wellFormed := h.wellFormed.put hr.ne_nil hr.plain hparent fun hdir => absurd hdir hno
  root := h.root.put fun hdir => absurd hdir hno
  no_link other target hin := by
    by_cases heq : other = path
    · subst heq
      rw [get?_put_self tree hr.ne_nil]
      rintro ⟨rfl⟩
      simp [Entry.isFile] at hfile
    · rw [get?_put_of_ne tree heq]
      exact h.no_link other target hin

theorem erase (h : project.Linkless tree) (hne : path ≠ []) (hno : ¬ tree.HasDirectory path) :
    project.Linkless (tree.erase path) where
  wellFormed := h.wellFormed.erase hno
  root := h.root.erase hno
  no_link other target hin := by
    by_cases heq : other = path
    · subst heq
      simp [get?_erase_self tree hne]
    · rw [get?_erase_of_ne tree heq]
      exact h.no_link other target hin

/-- **What rewriting a file of the project does**: nothing, or it puts the file where
the path spells, with the permissions of the one that was there. -/
theorem rewrite_cases (h : project.Linkless tree) (hin : project.root <+: path)
    (hplain : Path.Plain path) (s : String) :
    (∃ fault, tree.rewrite path s = (some fault, tree)) ∨
    (Rewritable path ∧ tree.HasDirectory path.dropLast ∧ ¬ tree.HasDirectory path ∧
      tree.rewrite path s = (none, tree.put path
        (.file (((tree.get? path).map Entry.mode).getD fileMode) (.text s)))) := by
  rcases Tree.rewrite_cases h.wellFormed hplain s with hfail | ⟨base, found, hw, hfind, hno, heq⟩
  · exact .inl hfail
  · obtain rfl := h.find_eq hin hplain hfind
    have hne : path ≠ [] := by
      rintro rfl
      exact hno (hasDirectory_nil tree)
    have hr := rewritable_of_written hplain hne hw hfind
    have hparent : tree.HasDirectory path.dropLast := by
      obtain ⟨mode, hdir⟩ := hw.found
      have := find_direct hplain.dropLast (fun via target hvia => ?_) hdir
      · obtain ⟨rfl, hmode⟩ : base = path.dropLast ∧ _ = tree.get? path.dropLast := by
          simpa using this
        exact hasDirectory_iff.mpr ⟨mode, hmode.symm⟩
      · exact h.not_link hin (hvia.trans (List.dropLast_prefix path)) target
    refine .inr ⟨hr, hparent, hno, ?_⟩
    rw [heq, hr.carriedMode_eq h.wellFormed hparent fun target => h.no_link path target hin]

/-! ### Paths that are accepted -/

/-- What is there of an accepted path lies where the path spells. -/
theorem anchor_eq (h : project.Linkless tree) (hin : project.root <+: path)
    (hplain : Path.Plain path) {up real : Path} (ha : tree.Anchor path up real) : real = up := by
  obtain ⟨entry, hfind⟩ := ha.found
  have := find_direct (hplain.of_isPrefix ha.reached)
    (fun _ target hvia => h.not_link hin (hvia.trans ha.reached) target) hfind
  simpa using congrArg Place.path this

/-- **Which paths are accepted** is a matter of their spelling: an accepted path is
accepted in every other tree of a project with this root and without links. -/
theorem resolve_of_resolve (h : project.Linkless tree) (hafter : project.Linkless after)
    (hres : project.resolve tree text = .ok path) : project.resolve after text = .ok path := by
  obtain ⟨up, real, hr⟩ := resolve_eq_ok_iff.mp hres
  have hplain := hr.plain (plain_root h.wellFormed h.root)
  obtain ⟨entry, hfind⟩ := hr.anchor.found
  have htold : tree.leadsFar (Path.text up) = false :=
    leadsFar_direct (hplain.of_isPrefix hr.anchor.reached) (fits_of_find hfind)
      fun _ target hvia => h.not_link hr.below (hvia.trans hr.anchor.reached) target
  have hup : project.root <+: up := h.anchor_eq hr.below hplain hr.anchor ▸ hr.inside htold
  have hleads := leads_of_find (hplain.of_isPrefix hr.anchor.reached) hfind
  -- The root is within the limits of names and paths, so it is found in the other tree.
  have hroot : after.isThere (Path.text project.root) = true := by
    obtain ⟨mode, hmode⟩ := hasDirectory_iff.mp hafter.root
    refine isThere_iff.mpr ⟨project.root, .directory mode, ?_⟩
    rw [find_of_parent hafter.wellFormed (plain_root h.wellFormed h.root)
      ((fits_of_find hfind).of_isPrefix hup) (fun name mem => hleads.short name (hup.subset mem))
      (hafter.wellFormed.parent hmode) (by simp [hmode]), hmode]
  obtain ⟨up', real', -, ha⟩ := Tree.anchor_eq after path
  refine resolve_eq_ok_iff.mpr ⟨up', real', hr.spelled, hr.below, ha, fun _ => ?_⟩
  rw [hafter.anchor_eq hr.below hplain ha]
  exact ha.deepest project.root hr.below hroot

end Linkless

end Workbench.Project
