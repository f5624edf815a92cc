/-
# Listings as walks

What a listing shows is what one comes by on a walk that goes down from a directory, into one
directory after the other. A walk enters neither a hidden directory nor a link nor a directory
that cannot be read, and may stop at a level.

* `Tree.mem_visits_iff` — what a walk comes by.
* `Tree.filter_visits` — **a walk that stops at a level is a whole walk without what is
  deeper.**
* `walks_agree` — **both kinds of listings are walks**, and show the same.
-/

import Workbench.Proofs.Files.Fitting

namespace Workbench.Files

variable {tree : Tree} {root directory written here real names : Path} {entry : Entry}
  {count deep limit : Nat}

/-! ### Walks -/

namespace Tree

/-- What a walk comes by that goes so many levels down from a directory, with the names that
lead there. The directory is read under its written path, and lies at a place. -/
def visits (tree : Tree) : Nat → Path → Path → List (Path × Entry)
  | 0, _, _ => []
  | count + 1, written, here =>
      if Path.isReadable written then
        ((tree.children here).filter fun child => !Path.isHidden child.1).flatMap fun child =>
          ([child.1], child.2) ::
            if child.2.isDirectory then
              (visits tree count (written ++ [child.1]) (here ++ [child.1])).map fun e =>
                (child.1 :: e.1, e.2)
            else []
      else []

theorem visits_succ (hread : Path.isReadable written = true) : tree.visits (count + 1) written here =
    ((tree.children here).filter fun child => !Path.isHidden child.1).flatMap fun child =>
      ([child.1], child.2) ::
        if child.2.isDirectory then
          (tree.visits count (written ++ [child.1]) (here ++ [child.1])).map fun e =>
            (child.1 :: e.1, e.2)
        else [] := by
  rw [visits, if_pos hread]

theorem visits_of_not_readable (hread : Path.isReadable written = false) :
    tree.visits count written here = [] := by
  cases count <;> simp [visits, hread]

theorem ne_nil_of_mem_visits (h : (names, entry) ∈ tree.visits count written here) :
    names ≠ [] := by
  cases hread : Path.isReadable written with
  | false => simp [visits_of_not_readable hread] at h
  | true =>
      cases count with
      | zero => simp [visits] at h
      | succ count =>
          rw [visits_succ hread] at h
          rintro rfl
          obtain ⟨child, -, hchild⟩ := List.mem_flatMap.mp h
          split at hchild <;> simp at hchild

/-- **What a walk comes by**: what lies below the directory so many levels deep, unless a name
on the way there is hidden or the directory in which it lies cannot be read. -/
theorem mem_visits_iff (hwf : tree.WellFormed) : (names, entry) ∈ tree.visits count written here ↔
    names ≠ [] ∧ names.length ≤ count ∧ tree.get? (here ++ names) = some entry ∧
      (∀ name ∈ names, Path.isHidden name = false) ∧
      Path.isReadable (written ++ names.dropLast) = true := by
  induction count generalizing written here names with
  | zero => simpa [visits] using fun hne hnil => absurd hnil hne
  | succ count ih =>
      cases hread : Path.isReadable written with
      | false =>
          simp only [visits_of_not_readable hread, List.not_mem_nil, false_iff]
          rintro ⟨-, -, -, -, h⟩
          simp [Path.isReadable_of_append h] at hread
      | true =>
      rw [visits_succ hread, List.mem_flatMap]
      constructor
      · rintro ⟨⟨name, found⟩, mem, h⟩
        obtain ⟨hchild, hshown⟩ := List.mem_filter.mp mem
        have hfound := (mem_children_iff hwf).mp hchild
        rcases List.mem_cons.mp h with heq | hbelow
        · obtain ⟨rfl, rfl⟩ := Prod.mk.inj heq
          exact ⟨by simp, by simp, hfound, by simpa using hshown, by simpa using hread⟩
        · split at hbelow
          · obtain ⟨⟨rest, last⟩, hrest, heq⟩ := List.mem_map.mp hbelow
            obtain ⟨rfl, rfl⟩ := Prod.mk.inj heq
            obtain ⟨hne, hlength, hlast, hhidden, hin⟩ := ih.mp hrest
            refine ⟨by simp, by simpa using hlength, by simpa using hlast,
              by simpa using ⟨by simpa using hshown, hhidden⟩, ?_⟩
            simpa [List.dropLast_cons_of_ne_nil hne] using hin
          · simp at hbelow
      · rintro ⟨hne, hlength, hentry, hhidden, hin⟩
        obtain ⟨name, rest, rfl⟩ := List.exists_cons_of_ne_nil hne
        obtain ⟨hname, hrest⟩ := List.forall_mem_cons.mp hhidden
        by_cases hlast : rest = []
        · subst hlast
          exact ⟨(name, entry),
            List.mem_filter.mpr ⟨(mem_children_iff hwf).mpr hentry, by simpa using hname⟩,
            List.mem_cons_self ..⟩
        · -- The first name on a longer way is that of a directory, which the walk enters.
          have hway : here ++ [name] <+: here ++ name :: rest := ⟨rest, by simp⟩
          obtain ⟨mode, hmode⟩ := hasDirectory_iff.mp
            (hwf.above hentry hway (by simpa using Ne.symm hlast))
          refine ⟨(name, .directory mode),
            List.mem_filter.mpr ⟨(mem_children_iff hwf).mpr hmode, by simpa using hname⟩,
            List.mem_cons_of_mem _ ?_⟩
          rw [if_pos (show (Entry.directory mode).isDirectory = true from rfl)]
          rw [List.dropLast_cons_of_ne_nil hlast] at hin
          exact List.mem_map.mpr ⟨(rest, entry), ih.mpr ⟨hlast, by simpa using hlength,
            by simpa using hentry, hrest, by simpa using hin⟩, rfl⟩

/-- **A walk that stops at a level is a whole walk without what is deeper.** -/
theorem filter_visits (h : count ≤ deep) :
    (tree.visits deep written here).filter (fun e => e.1.length ≤ count) =
      tree.visits count written here := by
  induction deep generalizing count written here with
  | zero =>
      obtain rfl := Nat.le_zero.mp h
      rfl
  | succ deep ih =>
      cases count with
      | zero =>
          refine List.filter_eq_nil_iff.mpr fun e he => ?_
          simpa using ne_nil_of_mem_visits he
      | succ count =>
          cases hread : Path.isReadable written with
          | false => simp [visits_of_not_readable hread]
          | true =>
              rw [visits_succ hread, visits_succ hread, List.filter_flatMap]
              refine List.flatMap_congr fun child _ => ?_
              rw [List.filter_cons_of_pos (by simp)]
              congr 1
              split
              · rw [← ih (Nat.le_of_succ_le_succ h), List.filter_map]
                simp [Function.comp_def]
              · rfl

/-! ### What a walk shows -/

theorem pairwise_children (hwf : tree.WellFormed) (here : Path) :
    (tree.children here).Pairwise fun a b => a.1 ≠ b.1 := by
  refine List.pairwise_filterMap.mpr ((pairwise_below hwf here).imp ?_)
  rintro ⟨names, found⟩ ⟨others, other⟩ hne a ha b hb
  match names, others, ha, hb with
  | [name], [another], ha, hb =>
      obtain rfl : (name, found) = a := by simpa using ha
      obtain rfl : (another, other) = b := by simpa using hb
      simpa using hne

/-- What is come by through a directory is named after it first. -/
theorem head?_of_mem_step {child : String × Entry} {e : Path × Entry}
    (mem : e ∈ ([child.1], child.2) :: if child.2.isDirectory then
      (tree.visits count written here).map fun e => (child.1 :: e.1, e.2) else []) :
    e.1.head? = some child.1 := by
  rcases List.mem_cons.mp mem with rfl | mem
  · rfl
  · split at mem
    · obtain ⟨_, -, rfl⟩ := List.mem_map.mp mem
      rfl
    · simp at mem

/-- A walk comes by everything once. -/
theorem nodup_visits (hwf : tree.WellFormed) : (tree.visits count written here).Nodup := by
  induction count generalizing written here with
  | zero => exact List.nodup_nil
  | succ count ih =>
      rw [visits]
      split
      · rw [List.nodup_flatMap]
        constructor
        · intro child _
          refine List.nodup_cons.mpr ⟨?_, ?_⟩
          · split
            · intro mem
              obtain ⟨⟨rest, last⟩, hrest, heq⟩ := List.mem_map.mp mem
              exact ne_nil_of_mem_visits hrest (List.cons.inj (congrArg Prod.fst heq)).2
            · exact List.not_mem_nil
          · split
            · apply ih.map
              intro e other heq
              obtain ⟨hnames, hentry⟩ := Prod.mk.inj heq
              exact Prod.ext (List.cons.inj hnames).2 hentry
            · exact List.nodup_nil
        · refine ((pairwise_children hwf here).filter _).imp ?_
          intro a b hne e ha hb
          exact hne (Option.some.inj ((head?_of_mem_step ha).symm.trans (head?_of_mem_step hb)))
      · exact List.nodup_nil

/-- What a listing can show of a directory is what a walk comes by that starts where the
directory lies. -/
theorem visits_perm_shown (hwf : tree.WellFormed) {mode : Nat}
    (hfind : tree.find true (Path.text directory) = .ok ⟨real, some (.directory mode)⟩) :
    (tree.visits count directory real).Perm
      ((tree.shown directory).filter fun e => e.1.length ≤ count) := by
  have hshown : (tree.shown directory).Nodup := by
    rw [shown, under, hfind]
    refine (((pairwise_below hwf real).imp ?_).filter _).filter _
    intro a b hne heq
    exact hne (congrArg Prod.fst heq)
  apply (List.perm_ext_iff_of_nodup (nodup_visits hwf) (hshown.filter _)).mpr
  rintro ⟨names, entry⟩
  rw [mem_visits_iff hwf, List.mem_filter, mem_shown_iff hwf]
  constructor
  · rintro ⟨hne, hlength, hentry, hhidden, hread⟩
    exact ⟨⟨real, mode, hfind, hne, hentry, hhidden, hread⟩, by simpa using hlength⟩
  · rintro ⟨⟨found, _, hfound, hne, hentry, hhidden, hread⟩, hlength⟩
    obtain ⟨rfl, -⟩ : found = real ∧ _ := by simpa [hfind, eq_comm] using hfound
    exact ⟨hne, by simpa using hlength, hentry, hhidden, hread⟩

end Tree

/-! ### Listings -/

theorem sorted_eq_of_perm {texts others : List String} (h : texts.Perm others) :
    sorted texts = sorted others := by
  have hperm : (sorted texts).Perm (sorted others) :=
    ((List.mergeSort_perm ..).trans h).trans (List.mergeSort_perm ..).symm
  exact hperm.eq_of_pairwise (fun _ _ _ _ => le_antisymm) (pairwise_sorted _) (pairwise_sorted _)

theorem levels_eq_sorted (hcount : 1 ≤ count) : levels tree root directory count =
    sorted (((tree.shown directory).filter fun e => e.1.length ≤ count).map
      fun e => (itemOf directory e).text root) := by
  rw [levels, max_eq_left hcount, Tree.items, List.filter_map, List.map_map]
  rfl

/-- A listing down to a number of levels shows what a walk comes by that stops there. -/
theorem levels_eq_visits (hwf : tree.WellFormed) (hcount : 1 ≤ count) {mode : Nat}
    (hfind : tree.find true (Path.text directory) = .ok ⟨real, some (.directory mode)⟩) :
    levels tree root directory count =
      sorted ((tree.visits count directory real).map fun e => (itemOf directory e).text root) := by
  rw [levels_eq_sorted hcount]
  exact sorted_eq_of_perm ((Tree.visits_perm_shown hwf hfind).map _).symm

/-- Levels are counted from 1, depths from 0. -/
theorem dedup_levels (hcount : 1 ≤ count) : (levels tree root directory count).dedup =
    (namesTo (tree.items directory) root (some (count - 1))).sort := by
  rw [levels, max_eq_left hcount, dedup_sorted, namesTo]
  simp only [Option.all_some, Nat.sub_add_cancel hcount]

/-- **Both kinds of listings show the same, and are walks.** One goes down to a number of levels
and puts in order all that it comes by. The other goes down at least as deep, leaves out what
is below a depth, which is counted from 0, and shows every name once. -/
theorem walks_agree (hwf : tree.WellFormed) (root directory : Path) (hcount : 1 ≤ count)
    (hlimit : (levels tree root directory count).dedup.length ≤ limit) :
    list tree root directory (some (count - 1)) limit =
      ⟨none, (levels tree root directory count).dedup⟩ ∧
    ∀ real mode, tree.find true (Path.text directory) = .ok ⟨real, some (.directory mode)⟩ →
      levels tree root directory count =
        sorted ((tree.visits count directory real).map fun e => (itemOf directory e).text root) ∧
      ∀ deep, count ≤ deep → (list tree root directory (some (count - 1)) limit).entries =
        (((tree.visits deep directory real).filter fun e => e.1.length ≤ count).map
          fun e => (itemOf directory e).text root).toFinset.sort := by
  have hlist : list tree root directory (some (count - 1)) limit =
      ⟨none, (levels tree root directory count).dedup⟩ := by
    rw [dedup_levels hcount, length_sort_namesTo] at hlimit
    rw [list, listOf_of_few hlimit, dedup_levels hcount]
  refine ⟨hlist, ?_⟩
  intro real mode hfind
  have hlevels : levels tree root directory count =
      sorted ((tree.visits count directory real).map fun e => (itemOf directory e).text root) :=
    levels_eq_visits hwf hcount hfind
  refine ⟨hlevels, ?_⟩
  intro deep hdeep
  rw [hlist, hlevels, dedup_sorted, Tree.filter_visits hdeep]

/-- A project with directories, a hidden one, and a link to one. -/
def branchingTree : Tree :=
  ⟨[(["p"], .directory 0o755), (["p", "a"], .directory 0o755), (["p", "a", "b"], .directory 0o755),
    (["p", "a", "b", "x.py"], .file 0o644 (.text "x\n")), (["p", "c"], .link "a"),
    (["p", ".git"], .directory 0o755), (["p", ".git", "HEAD"], .file 0o644 (.text "y\n"))], []⟩

theorem walks_agree_branchingTree :
    branchingTree.WellFormed ∧ (levels branchingTree ["p"] ["p"] 2).dedup.length ≤ 3 ∧
    list branchingTree ["p"] ["p"] (some 1) 3 = ⟨none, ["a/", "a/b/", "c"]⟩ := by
  have hwf : branchingTree.WellFormed := by decide
  have hlimit : (levels branchingTree ["p"] ["p"] 2).dedup.length ≤ 3 := by
    rw [dedup_levels (by decide), length_sort_namesTo]
    decide +kernel
  obtain ⟨hlist, hwalks⟩ := walks_agree hwf ["p"] ["p"] (by decide) hlimit
  obtain ⟨hlevels, -⟩ := hwalks ["p"] 0o755 (by decide +kernel)
  have hvisits : (branchingTree.visits 2 ["p"] ["p"]).map (fun e => (itemOf ["p"] e).text ["p"]) =
      ["a/", "a/b/", "c"] := by decide +kernel
  rw [hvisits, sorted_eq_self (by decide +kernel)] at hlevels
  exact ⟨hwf, hlimit, by rw [hlist, hlevels]; decide +kernel⟩

end Workbench.Files
