/-
# Places that paths name

A path is resolved by reading away `.` and `..`, and it is accepted by where the
deepest part of it that is there really lies. So an accepted place lies below the
root as it is written, that part of it really lies there too, and nothing deeper is
there (`Project.Resolved`). Where it cannot be told where that part lies the path is
accepted as well, so it can stray (`Project.Strays`).

* `Project.resolve_eq_ok_iff` — **the paths that are accepted, and the others**.
* `Project.Resolved.inside_or_link` — **what the last name of an accepted place stands for**
  lies in the project, unless it is a link.
* `Project.opened_root` — the root of a project that was opened is a directory.
-/

import Workbench.Project.Opening
import Workbench.Proofs.Files.Directories
import Workbench.Proofs.Files.Trace

namespace Workbench

open Workbench.Files Workbench.Files.Tree

variable {tree : Tree} {path up real : Path} {text : String} {project : Project}

/-! ### The part that is there -/

/-- The deepest part of a path that is there, and where it really lies. -/
structure Files.Tree.Anchor (tree : Tree) (path up real : Path) : Prop where
  reached : up <+: path
  found : ∃ entry, tree.find true (Path.text up) = .ok ⟨real, some entry⟩
  deepest : ∀ other, other <+: path → tree.isThere (Path.text other) = true → other <+: up

theorem Files.Tree.anchor_eq (tree : Tree) (path : Path) :
    ∃ up real, (tree.anchor path.reverse).reverse = up ∧ tree.Anchor path up real := by
  induction path using List.reverseRecOn with
  | nil =>
      exact ⟨[], [], rfl, List.prefix_refl _, ⟨_, tree.find_root⟩, fun other hother _ => hother⟩
  | append_singleton path name ih =>
      rw [List.reverse_append, List.reverse_singleton, List.singleton_append, anchor]
      simp only [List.reverse_cons, List.reverse_reverse]
      by_cases hthere : tree.isThere (Path.text (path ++ [name])) = true
      · obtain ⟨real, entry, hfind⟩ := isThere_iff.mp hthere
        exact ⟨path ++ [name], real, by simp [hthere], List.prefix_refl _, ⟨entry, hfind⟩,
          fun other hother _ => hother⟩
      · obtain ⟨up, real, hanchor, hup, hfound, hdeep⟩ := ih
        refine ⟨up, real, by simp [hthere, hanchor], hup.trans (List.prefix_append ..), hfound, ?_⟩
        intro other hother hother'
        rcases List.prefix_concat_iff.mp hother with rfl | hother
        · exact absurd hother' hthere
        · exact hdeep other hother hother'

/-- There is one such part. -/
theorem Files.Tree.Anchor.unique {other found : Path} (h : tree.Anchor path up real)
    (ho : tree.Anchor path other found) : up = other ∧ real = found := by
  obtain ⟨entry, hfind⟩ := h.found
  obtain ⟨entry', hfind'⟩ := ho.found
  have hsame : up = other :=
    (ho.deepest up h.reached (isThere_iff.mpr ⟨_, _, hfind⟩)).eq_of_length_le
      (h.deepest other ho.reached (isThere_iff.mpr ⟨_, _, hfind'⟩)).length_le
  subst hsame
  obtain ⟨rfl, -⟩ : real = found ∧ _ := by simpa [hfind] using hfind'
  exact ⟨rfl, rfl⟩

namespace Project

/-! ### Paths that are accepted -/

/-- An accepted place, the deepest part of it that is there, and where that really lies:
in the project, if it can be told. -/
structure Resolved (project : Project) (tree : Tree) (text : String) (path up real : Path) :
    Prop where
  spelled : Path.cancel (project.namesOf text) = some path
  below : project.root <+: path
  anchor : tree.Anchor path up real
  inside : tree.leadsFar (Path.text up) = false → project.root <+: real

/-- **A path is accepted** when it stays below the root as it is written, and the
deepest part of it that is there really lies below the root, if it can be told where. -/
theorem resolve_eq_ok_iff :
    project.resolve tree text = .ok path ↔ ∃ up real, project.Resolved tree text path up real := by
  unfold resolve
  constructor
  · intro h
    split at h
    · cases h
    · next spelled hspelled =>
        split at h
        · cases h
        · next hbelow =>
            obtain ⟨up, real, hanchor, ha⟩ := anchor_eq tree spelled
            obtain ⟨entry, hfind⟩ := ha.found
            rw [hanchor] at h
            have hinside : spelled = path ∧
                (tree.leadsFar (Path.text up) = false → project.root <+: real) := by
              split at h
              · next found hreal =>
                  obtain ⟨⟨_, hfound⟩, -⟩ := realPath_eq_ok_iff.mp hreal
                  obtain ⟨rfl, -⟩ : real = found ∧ _ := by simpa [hfind] using hfound
                  split at h
                  · next hin => exact ⟨by simpa using h, fun _ => List.isPrefixOf_iff_prefix.mp hin⟩
                  · cases h
              · next hreal =>
                  refine ⟨by simpa using h, fun htold => ?_⟩
                  simp [realPath_eq_ok_iff.mpr ⟨⟨entry, hfind⟩, htold⟩] at hreal
            obtain ⟨rfl, hin⟩ := hinside
            exact ⟨up, real, hspelled, List.isPrefixOf_iff_prefix.mp (by simpa using hbelow), ha, hin⟩
  · rintro ⟨up, real, hspelled, hbelow, ha, hin⟩
    obtain ⟨other, found, hanchor, hother⟩ := anchor_eq tree path
    obtain ⟨rfl, rfl⟩ := hother.unique ha
    simp only [hspelled, List.isPrefixOf_iff_prefix.mpr hbelow, Bool.not_true, Bool.false_eq_true,
      if_false, hanchor]
    split
    · next place hreal =>
        obtain ⟨⟨_, hfound⟩, htold⟩ := realPath_eq_ok_iff.mp hreal
        obtain ⟨_, hfind⟩ := ha.found
        obtain ⟨rfl, -⟩ : found = place ∧ _ := by simpa [hfind] using hfound
        rw [if_pos (List.isPrefixOf_iff_prefix.mpr (hin htold))]
    · rfl

/-- A path is accepted, or refused as one that leads out. -/
theorem resolve_cases (project : Project) (tree : Tree) (text : String) :
    (∃ place, project.resolve tree text = .ok place) ∨
      project.resolve tree text = .error ⟨text, project.root⟩ := by
  unfold resolve
  split
  · exact .inr rfl
  · split
    · exact .inr rfl
    · split
      · split
        · exact .inl ⟨_, rfl⟩
        · exact .inr rfl
      · exact .inl ⟨_, rfl⟩

/-- A path leads out of a project as it is written, or the deepest part of it that is
there lies elsewhere. -/
def LeadsOut (project : Project) (tree : Tree) (text : String) : Prop :=
  (∀ path, Path.cancel (project.namesOf text) = some path → ¬ project.root <+: path) ∨
  ∃ path up real, Path.cancel (project.namesOf text) = some path ∧ tree.Anchor path up real ∧
    ¬ project.root <+: real

/-- A path stays in a project as it is written, and the deepest part of it that is there
lies elsewhere, but by a way on which that cannot be told. -/
def Strays (project : Project) (tree : Tree) (text : String) : Prop :=
  ∃ path up real, Path.cancel (project.namesOf text) = some path ∧ project.root <+: path ∧
    tree.Anchor path up real ∧ tree.leadsFar (Path.text up) = true ∧ ¬ project.root <+: real

theorem not_strays_of_told (hspelled : Path.cancel (project.namesOf text) = some path)
    (htold : tree.leadsFar (Path.text (tree.anchor path.reverse).reverse) = false) :
    ¬ project.Strays tree text := by
  rintro ⟨path', up, real, hspelled', -, ha, hfar, -⟩
  obtain rfl : path = path' := by simpa [hspelled] using hspelled'
  obtain ⟨other, found, hanchor, hother⟩ := anchor_eq tree path
  obtain ⟨rfl, -⟩ := hother.unique ha
  rw [hanchor, hfar] at htold
  cases htold

/-- An accepted path strays when it leads elsewhere. -/
theorem Resolved.inside_of_not_strays (h : project.Resolved tree text path up real)
    (hno : ¬ project.Strays tree text) : project.root <+: real := by
  by_contra hout
  refine hno ⟨path, up, real, h.spelled, h.below, h.anchor, ?_, hout⟩
  exact (Bool.not_eq_false _).mp fun htold => hout (h.inside htold)

/-- **A path that leads out is refused**, and no other, unless it strays. -/
theorem resolve_eq_error_iff :
    project.resolve tree text = .error ⟨text, project.root⟩ ↔
      project.LeadsOut tree text ∧ ¬ project.Strays tree text := by
  constructor
  · intro h
    have hrefused (path up real : Path) : ¬ project.Resolved tree text path up real := fun hr => by
      simp [resolve_eq_ok_iff.mpr ⟨up, real, hr⟩] at h
    constructor
    · by_contra hno
      obtain ⟨hspells, hlies⟩ := not_or.mp hno
      push Not at hspells hlies
      obtain ⟨path, hspelled, hbelow⟩ := hspells
      obtain ⟨up, real, -, ha⟩ := anchor_eq tree path
      exact hrefused path up real ⟨hspelled, hbelow, ha, fun _ => hlies path up real hspelled ha⟩
    · rintro ⟨path, up, real, hspelled, hbelow, ha, hfar, -⟩
      exact hrefused path up real ⟨hspelled, hbelow, ha, fun htold => by simp [hfar] at htold⟩
  · rintro ⟨hout, hstays⟩
    refine (project.resolve_cases tree text).resolve_left ?_
    rintro ⟨path, h⟩
    obtain ⟨up, real, hr⟩ := resolve_eq_ok_iff.mp h
    rcases hout with hout | ⟨path', up', real', hspelled', ha', hout⟩
    · exact hout path hr.spelled hr.below
    · obtain rfl : path = path' := by simpa [hr.spelled] using hspelled'
      obtain ⟨-, rfl⟩ := hr.anchor.unique ha'
      exact hout (hr.inside_of_not_strays hstays)

/-- A path is accepted, and the last name of it stands for a link. -/
def EndsAtLink (project : Project) (tree : Tree) (text : String) (link : Path) : Prop :=
  ∃ path target, project.resolve tree text = .ok path ∧
    tree.find false (Path.text path) = .ok ⟨link, some (.link target)⟩

theorem endsAtLink_iff {link : Path} (hres : project.resolve tree text = .ok path) :
    project.EndsAtLink tree text link ↔
      ∃ target, tree.find false (Path.text path) = .ok ⟨link, some (.link target)⟩ := by
  simp [EndsAtLink, hres]

/-- The names of a place that a path stands for as it is written are names of entries. -/
theorem plain_of_spelled (hroot : Path.Plain project.root)
    (h : Path.cancel (project.namesOf text) = some path) : Path.Plain path := by
  refine Path.plain_of_cancel (fun name mem => ?_) h
  unfold namesOf at mem
  split at mem
  · exact Path.mem_names mem
  · rcases List.mem_append.mp mem with mem | mem
    · exact ⟨(hroot name mem).1, (hroot name mem).2.1, (hroot name mem).2.2.2⟩
    · exact Path.mem_names mem

/-- The names of an accepted place are names of entries. -/
theorem Resolved.plain (h : project.Resolved tree text path up real)
    (hroot : Path.Plain project.root) : Path.Plain path :=
  plain_of_spelled hroot h.spelled

/-! ### Where an accepted place lies -/

section Lies

variable {place : Place} {follow : Bool} (h : project.Resolved tree text path up real)

include h

/-- What is there at an accepted place is the deepest part of it. -/
theorem Resolved.eq_of_isThere (hthere : tree.isThere (Path.text path) = true) : up = path :=
  h.anchor.reached.eq_of_length_le
    (h.anchor.deepest path (List.prefix_refl _) hthere).length_le

theorem Resolved.find_eq (hthere : tree.isThere (Path.text path) = true) :
    ∃ entry, tree.find true (Path.text path) = .ok ⟨real, some entry⟩ :=
  h.eq_of_isThere hthere ▸ h.anchor.found

/-- What is there of a place where nothing is lies above it. -/
theorem Resolved.reached_dropLast (hnew : tree.isThere (Path.text path) = false) :
    up <+: path.dropLast := by
  rcases List.eq_nil_or_concat' path with rfl | ⟨dir, name, rfl⟩
  · exact h.anchor.reached
  · rw [List.dropLast_concat]
    refine (List.prefix_concat_iff.mp h.anchor.reached).resolve_left ?_
    rintro rfl
    obtain ⟨entry, hfind⟩ := h.anchor.found
    simp [isThere_iff.mpr ⟨_, _, hfind⟩] at hnew

variable (hin : project.root <+: real)

include hin

/-- The directory above an accepted place where nothing is lies in the project. -/
theorem Resolved.above (hwf : tree.WellFormed) (hplain : Path.Plain path) {dir base : Path}
    {name : String} {mode : Nat} (hdir : dir ++ [name] <+: path)
    (hfind : tree.find true (Path.text dir) = .ok ⟨base, some (.directory mode)⟩)
    (hno : tree.isThere (Path.text (dir ++ [name])) = false) : project.root <+: base := by
  have hup : dir <+: up := h.anchor.deepest dir ((List.prefix_append ..).trans hdir)
    (isThere_iff.mpr ⟨_, _, hfind⟩)
  obtain ⟨entry, hfound⟩ := h.anchor.found
  by_cases heq : dir = up
  · subst heq
    obtain ⟨rfl, -⟩ : base = real ∧ _ := by simpa [hfind] using hfound
    exact hin
  · -- Something deeper is there, so the next name is there as well.
    have hnext : dir ++ [name] <+: up := by
      refine List.prefix_of_prefix_length_le hdir h.anchor.reached ?_
      have hlt : dir.length < up.length :=
        hup.length_le.lt_of_ne fun hlength => heq (hup.eq_of_length hlength)
      rw [List.length_append]
      exact hlt
    have hthere : tree.isThere (Path.text (dir ++ [name])) = true := by
      by_cases hlast : dir ++ [name] = up
      · rw [hlast]
        exact isThere_iff.mpr ⟨_, _, hfound⟩
      · obtain ⟨_, _, habove⟩ :=
          find_above hwf (hplain.of_isPrefix h.anchor.reached) hfound hnext hlast
        exact isThere_iff.mpr ⟨_, _, habove⟩
    simp [hno] at hthere

/-- **The last name of an accepted place** stands in the project, or a link stands there. -/
theorem Resolved.inside_or_link (hwf : tree.WellFormed) (hplain : Path.Plain path)
    (hfind : tree.find false (Path.text path) = .ok place) :
    project.root <+: place.path ∨
      (tree.isThere (Path.text path) = true ∧ ∃ target, place.entry = some (.link target)) := by
  by_cases hthere : tree.isThere (Path.text path) = true
  · by_cases hlink : ∃ target, place.entry = some (.link target)
    · exact .inr ⟨hthere, hlink⟩
    · obtain ⟨entry, hfound⟩ := h.find_eq hthere
      have hfollow := ((leads_of_find hplain hfind).following (by simpa using hlink)).find_eq
        hplain (fits_of_find hfind)
      obtain rfl : place = ⟨real, some entry⟩ := by simpa [hfollow] using hfound
      exact .inl hin
  · rcases List.eq_nil_or_concat' path with rfl | ⟨dir, name, rfl⟩
    · exact .inl (by simp [List.prefix_nil.mp h.below])
    · obtain ⟨base, mode, hdir, -, rfl⟩ := exists_of_find_concat hwf hplain (by simp) hfind
      exact .inl ((h.above hin hwf hplain (List.prefix_refl _) hdir (by simpa using hthere)).trans
        (List.prefix_append ..))

/-- Directories that are made on the way to an accepted place lie in the project. -/
theorem Resolved.anchored (hwf : tree.WellFormed) (hplain : Path.Plain path) :
    tree.Anchored (project.root <+: ·) path :=
  fun _ _ _ _ hup hdir hnone _ =>
    (h.above hin hwf hplain hup hdir
      (not_isThere_of_empty hwf (hplain.of_isPrefix hup) hdir hnone)).trans (List.prefix_append ..)

/-- When those directories have been made, the last name of the place stands in the project. -/
theorem Resolved.inside_of_arrived (hwf : tree.WellFormed) (hplain : Path.Plain path)
    (hnew : tree.isThere (Path.text path) = false) {ready : Tree} (hready : ready.WellFormed)
    (harrived : Arrived (project.root <+: ·) tree ready path.dropLast)
    (hfind : ready.find false (Path.text path) = .ok place) : project.root <+: place.path := by
  rcases List.eq_nil_or_concat' path with rfl | ⟨dir, name, rfl⟩
  · simp [List.prefix_nil.mp h.below]
  · rw [List.dropLast_concat] at harrived
    obtain ⟨base, mode, hdir, hwhere⟩ := harrived
    obtain ⟨base', _, hdir', -, rfl⟩ := exists_of_find_concat hready hplain (by simp) hfind
    obtain ⟨rfl, -⟩ : base = base' ∧ _ := by simpa [hdir] using hdir'
    rcases hwhere with rfl | ⟨-, -, hinside⟩
    · exact (h.above hin hwf hplain (List.prefix_refl _) hdir hnew).trans (List.prefix_append ..)
    · exact hinside [name]

end Lies

/-! ### The root -/

theorem plain_root (hwf : tree.WellFormed) (hroot : tree.HasDirectory project.root) :
    Path.Plain project.root := by
  obtain ⟨mode, hmode⟩ := hasDirectory_iff.mp hroot
  exact hwf.plain hmode

/-- A directory that a path really leads to is found where it is. -/
theorem find_realPath (hwf : tree.WellFormed) (hhere : tree.HasDirectory tree.here)
    (hreal : tree.realPath text = .ok real) (hdir : tree.isDirectory (Path.text real) = true) :
    ∃ mode, tree.find true (Path.text real) = .ok ⟨real, some (.directory mode)⟩ ∧
      tree.get? real = some (.directory mode) := by
  obtain ⟨⟨entry, hfind⟩, -⟩ := realPath_eq_ok_iff.mp hreal
  have hleads := leads_of_find_text hfind
  have hentry : tree.get? real = some entry := hleads.entry_eq
  have hno : ∀ target, entry ≠ .link target := fun target heq =>
    hleads.not_link rfl (hasDirectory_start hhere text) hwf target (by simp [heq])
  obtain ⟨path, mode, hdirectory⟩ := isDirectory_iff.mp hdir
  obtain ⟨rfl, hmode⟩ : path = real ∧ some (.directory mode) = tree.get? real := by
    simpa using find_direct (hwf.plain hentry)
      (fun via target hvia => not_link_above hwf hentry hno hvia target) hdirectory
  exact ⟨mode, hdirectory, hmode.symm⟩

/-- **The root of a project that was opened** is a directory. -/
theorem opened_root (hwf : tree.WellFormed) (hhere : tree.HasDirectory tree.here)
    (h : opened tree text = .ok project) : tree.HasDirectory project.root := by
  unfold opened at h
  split at h
  · cases h
  · next root hreal =>
      split at h
      · next hdir =>
          obtain rfl : ⟨root, nameOf root, commitAt tree root⟩ = project := by simpa using h
          obtain ⟨mode, -, hmode⟩ := find_realPath hwf hhere hreal hdir
          exact hasDirectory_iff.mpr ⟨mode, hmode⟩
      · cases h

end Project

end Workbench
