/-
# Listings that fit

A listing may have only so many entries. If there are more down to the depth that was asked
for, it goes down only to the greatest depth with few enough, and says so; if there are too
many in the directory itself, it shows the first of them.

* `mem_namesTo_items_iff` — what is named down to a depth; `entriesTo_eq` — a listing down to
  a depth has these names in order, each once.
* `isGreatest_of_greatestFitting`, `greatestFitting_eq_none_iff` — the search for a depth.
* `list_fits` — **what a listing shows under a limit**.
-/

import Mathlib.Data.Finset.Sort
import Mathlib.Data.String.Basic
import Mathlib.Order.Bounds.Basic
import Workbench.Proofs.Files.Listing
import Workbench.Proofs.Files.Relative
import Workbench.Proofs.Sorting

namespace Workbench.Files

variable {tree : Tree} {root directory : Path} {items : List Item} {said : String}
  {depth : Option Nat} {limit : Nat}

/-! ### Sorted texts, each once -/

theorem pairwise_sorted (texts : List String) : (sorted texts).Pairwise (· ≤ ·) :=
  Sorting.pairwise_mergeSort id (fun _ _ => decide_eq_true_iff) texts

theorem distinct_eq_dedup {texts : List String} (h : texts.Pairwise (· ≤ ·)) :
    distinct texts = texts.dedup := by
  induction texts using distinct.induct with
  | case1 a rest ih =>
      rw [distinct, if_pos rfl, ih (List.pairwise_cons.mp h).2,
        List.dedup_cons_of_mem (List.mem_cons_self ..)]
  | case2 a b rest hne ih =>
      obtain ⟨hleast, hrest⟩ := List.pairwise_cons.mp h
      have hnot : a ∉ b :: rest := by
        intro mem
        apply hne
        apply le_antisymm (hleast b (List.mem_cons_self ..))
        rcases List.mem_cons.mp mem with rfl | mem
        · exact le_refl _
        · exact (List.pairwise_cons.mp hrest).1 a mem
      rw [distinct, if_neg hne, ih hrest, List.dedup_cons_of_notMem hnot]
  | case3 texts hshort =>
      cases texts with
      | nil => rfl
      | cons a rest =>
          cases rest with
          | nil => simp [distinct]
          | cons b rest => exact absurd rfl (hshort a b rest)

/-- Sorted texts, each once, are the set of the texts in order. -/
theorem dedup_sorted (texts : List String) : (sorted texts).dedup = texts.toFinset.sort := by
  have hset : (sorted texts).dedup.toFinset = texts.toFinset := by
    ext said
    simp [mem_sorted]
  rw [← hset]
  exact ((List.toFinset_sort _ (List.nodup_dedup _)).mpr
    ((pairwise_sorted texts).sublist (List.dedup_sublist _))).symm

/-! ### What is named down to a depth -/

/-- What a listing of what was come by names down to a depth, or at any depth. -/
def namesTo (items : List Item) (root : Path) (depth : Option Nat) : Finset String :=
  ((items.filter fun item => depth.all fun d => item.level ≤ d + 1).map (·.text root)).toFinset

theorem mem_namesTo : said ∈ namesTo items root depth ↔
    ∃ item ∈ items, (∀ d ∈ depth, item.level ≤ d + 1) ∧ item.text root = said := by
  cases depth <;> simp [namesTo, and_assoc]

/-- **What is named down to a depth**: what lies in the directory at most that deep, with no
hidden name on the way and in a directory that can be read. -/
theorem mem_namesTo_items_iff (hwf : tree.WellFormed) :
    said ∈ namesTo (tree.items directory) root depth ↔ ∃ real mode names entry,
      tree.find true (Path.text directory) = .ok ⟨real, some (.directory mode)⟩ ∧ names ≠ [] ∧
      tree.get? (real ++ names) = some entry ∧ (∀ name ∈ names, Path.isHidden name = false) ∧
      Path.isReadable (directory ++ names.dropLast) = true ∧
      (∀ d ∈ depth, names.length ≤ d + 1) ∧
      (itemOf directory (names, entry)).text root = said := by
  rw [mem_namesTo]
  constructor
  · rintro ⟨item, hitem, hdeep, hsaid⟩
    obtain ⟨⟨names, entry⟩, hshown, rfl⟩ := mem_items_iff.mp hitem
    obtain ⟨real, mode, hfind, hne, hentry, hhidden, hread⟩ := (Tree.mem_shown_iff hwf).mp hshown
    exact ⟨real, mode, names, entry, hfind, hne, hentry, hhidden, hread, hdeep, hsaid⟩
  · rintro ⟨real, mode, names, entry, hfind, hne, hentry, hhidden, hread, hdeep, hsaid⟩
    exact ⟨itemOf directory (names, entry), mem_items_iff.mpr ⟨(names, entry),
      (Tree.mem_shown_iff hwf).mpr ⟨real, mode, hfind, hne, hentry, hhidden, hread⟩, rfl⟩,
      hdeep, hsaid⟩

theorem namesTo_mono {d e : Nat} (h : d ≤ e) :
    namesTo items root (some d) ⊆ namesTo items root (some e) := by
  intro said mem
  obtain ⟨item, hitem, hdeep, hsaid⟩ := mem_namesTo.mp mem
  refine mem_namesTo.mpr ⟨item, hitem, ?_, hsaid⟩
  intro _ heq
  obtain rfl := Option.some.inj heq
  exact (hdeep d rfl).trans (Nat.add_le_add_right h 1)

/-- A listing down to a depth has the names down to it in order, each once. -/
theorem entriesTo_eq : entriesTo items root depth = (namesTo items root depth).sort := by
  rw [entriesTo, distinct_eq_dedup (pairwise_sorted _), dedup_sorted, namesTo]
  cases depth <;> rfl

/-! ### The search for a depth -/

theorem level_le_deepest {items : List Item} {item : Item} (mem : item ∈ items) :
    item.level ≤ deepest items + 1 := by
  have hfold (items : List Item) (start : Nat) :
      start ≤ items.foldl (fun d item => max d (item.level - 1)) start ∧
      ∀ item ∈ items, item.level ≤ items.foldl (fun d item => max d (item.level - 1)) start + 1 := by
    induction items generalizing start with
    | nil => simp
    | cons first rest ih =>
        obtain ⟨hstart, hrest⟩ := ih (max start (first.level - 1))
        rw [List.foldl_cons]
        refine ⟨(le_max_left ..).trans hstart, fun item mem => ?_⟩
        rcases List.mem_cons.mp mem with rfl | mem
        · have := (le_max_right ..).trans hstart
          omega
        · exact hrest item mem
  exact (hfold items 0).2 item mem

/-- Nothing is named below the deepest depth. -/
theorem namesTo_deepest :
    namesTo items root depth ⊆ namesTo items root (some (deepest items)) := by
  intro said mem
  obtain ⟨item, hitem, -, hsaid⟩ := mem_namesTo.mp mem
  refine mem_namesTo.mpr ⟨item, hitem, ?_, hsaid⟩
  intro _ heq
  obtain rfl := Option.some.inj heq
  exact level_le_deepest hitem

section Search

variable {entries : Nat → List String} {start : Nat}

theorem greatestFitting_eq_none_iff :
    greatestFitting entries limit start = none ↔ ∀ d ≤ start, limit < (entries d).length := by
  induction start with
  | zero => simp [greatestFitting]
  | succ start ih =>
      by_cases hfits : (entries (start + 1)).length ≤ limit
      · simp only [greatestFitting, if_pos hfits]
        exact ⟨nofun, fun h => absurd hfits (h _ le_rfl).not_ge⟩
      · simp only [greatestFitting, if_neg hfits, ih, Nat.le_succ_iff]
        constructor
        · rintro h d (hd | rfl)
          · exact h d hd
          · exact not_le.mp hfits
        · intro h d hd
          exact h d (.inl hd)

theorem isGreatest_of_greatestFitting {d : Nat} (h : greatestFitting entries limit start = some d) :
    IsGreatest {e | e ≤ start ∧ (entries e).length ≤ limit} d := by
  induction start with
  | zero =>
      obtain ⟨hfits, rfl⟩ : (entries 0).length ≤ limit ∧ 0 = d := by simpa [greatestFitting] using h
      exact ⟨⟨le_rfl, hfits⟩, fun e he => he.1⟩
  | succ start ih =>
      by_cases hfits : (entries (start + 1)).length ≤ limit
      · obtain rfl : start + 1 = d := by simpa [greatestFitting, hfits] using h
        exact ⟨⟨le_rfl, hfits⟩, fun e he => he.1⟩
      · obtain ⟨⟨hle, hd⟩, hgreatest⟩ := ih (by simpa [greatestFitting, hfits] using h)
        refine ⟨⟨hle.trans (Nat.le_succ _), hd⟩, ?_⟩
        rintro e ⟨hstart, he⟩
        have hne : e ≠ start + 1 := fun heq => hfits (heq ▸ he)
        exact hgreatest ⟨by omega, he⟩

end Search

/-! ### Listings under a limit -/

/-- What a listing shows of the names down to each depth, down to one depth, if it may have
only so many entries. -/
structure Fits (names : Option Nat → Finset String) (depth : Option Nat) (limit : Nat)
    (listing : Listing) : Prop where
  few : listing.entries.length ≤ limit
  /-- All that was asked for is shown, without a note, if it is few enough. -/
  whole : listing = ⟨none, (names depth).sort⟩ ↔ (names depth).card ≤ limit
  /-- Otherwise what is shown goes down to the greatest depth with few enough names. -/
  reduced : limit < (names depth).card → (∃ d, (names (some d)).card ≤ limit) →
    ∃ d, IsGreatest {d | (names (some d)).card ≤ limit} d ∧
      listing = ⟨some (.reduced d (names (some d)).card), (names (some d)).sort⟩ ∧
      listing.text = "\n".intercalate (("Note: Reduced depth to " ++ toString d ++ " with " ++
        toString (names (some d)).card ++ " entries") :: (names (some d)).sort)
  /-- If there is none, the first names of the directory itself are shown. -/
  capped : limit < (names depth).card → (∀ d, limit < (names (some d)).card) →
    listing = ⟨some (.capped (names (some 0)).card limit), (names (some 0)).sort.take limit⟩ ∧
    listing.text = "\n".intercalate (("Note: Limited to depth 0 with " ++
      toString (names (some 0)).card ++ " entries (showing first " ++ toString limit ++ ")") ::
      (names (some 0)).sort.take limit)

/-- A depth with few enough names is among those that are tried. -/
theorem le_start_of_fitting {d : Nat} (hmany : limit < (namesTo items root depth).card)
    (hfits : (namesTo items root (some d)).card ≤ limit) :
    d ≤ min (depth.getD (deepest items)) (deepest items) := by
  have hless {names : Finset String} (h : names ⊆ namesTo items root (some d)) :
      names.card ≤ limit := (Finset.card_le_card h).trans hfits
  have hdeepest : d ≤ deepest items := by
    by_contra hlt
    exact absurd (hless (namesTo_deepest.trans (namesTo_mono (not_le.mp hlt).le))) hmany.not_ge
  refine le_min ?_ hdeepest
  cases depth with
  | none => exact hdeepest
  | some asked =>
      by_contra hlt
      exact absurd (hless (namesTo_mono (not_le.mp hlt).le)) hmany.not_ge

theorem length_sort_namesTo :
    (namesTo items root depth).sort.length = (namesTo items root depth).card :=
  Finset.length_sort _

theorem listOf_of_few (hfew : (namesTo items root depth).card ≤ limit) :
    listOf items root depth limit = ⟨none, (namesTo items root depth).sort⟩ := by
  simp only [listOf, entriesTo_eq, length_sort_namesTo, if_pos hfew]

theorem listOf_of_fitting (hmany : limit < (namesTo items root depth).card)
    (hsome : ∃ d, (namesTo items root (some d)).card ≤ limit) :
    ∃ d, IsGreatest {d | (namesTo items root (some d)).card ≤ limit} d ∧
      listOf items root depth limit =
        ⟨some (.reduced d (namesTo items root (some d)).card),
          (namesTo items root (some d)).sort⟩ := by
  obtain ⟨fitting, hfitting⟩ := hsome
  cases hsearch : greatestFitting (fun d => (namesTo items root (some d)).sort) limit
      (min (depth.getD (deepest items)) (deepest items)) with
  | none =>
      have hno := greatestFitting_eq_none_iff.mp hsearch fitting (le_start_of_fitting hmany hfitting)
      exact absurd (length_sort_namesTo.trans_le hfitting) hno.not_ge
  | some d =>
      obtain ⟨⟨-, hd⟩, hgreatest⟩ := isGreatest_of_greatestFitting hsearch
      refine ⟨d, ⟨length_sort_namesTo.symm.trans_le hd, ?_⟩, ?_⟩
      · intro e he
        exact hgreatest ⟨le_start_of_fitting hmany he, length_sort_namesTo.trans_le he⟩
      · simp only [listOf, entriesTo_eq, length_sort_namesTo, if_neg hmany.not_ge, hsearch]

theorem listOf_of_many (hmany : limit < (namesTo items root depth).card)
    (hnone : ∀ d, limit < (namesTo items root (some d)).card) :
    listOf items root depth limit =
      ⟨some (.capped (namesTo items root (some 0)).card limit),
        (namesTo items root (some 0)).sort.take limit⟩ := by
  have hsearch : greatestFitting (fun d => (namesTo items root (some d)).sort) limit
      (min (depth.getD (deepest items)) (deepest items)) = none :=
    greatestFitting_eq_none_iff.mpr fun d _ => length_sort_namesTo ▸ hnone d
  simp only [listOf, entriesTo_eq, length_sort_namesTo, if_neg hmany.not_ge, hsearch,
    List.length_take, min_eq_left (hnone 0).le]

/-- **A listing fits** whatever was come by. -/
theorem fits_listOf (items : List Item) (root : Path) (depth : Option Nat) (limit : Nat) :
    Fits (namesTo items root) depth limit (listOf items root depth limit) where
  few := by
    by_cases hfew : (namesTo items root depth).card ≤ limit
    · rw [listOf_of_few hfew]
      exact length_sort_namesTo.trans_le hfew
    · by_cases hsome : ∃ d, (namesTo items root (some d)).card ≤ limit
      · obtain ⟨d, ⟨hd, -⟩, hlist⟩ := listOf_of_fitting (not_le.mp hfew) hsome
        rw [hlist]
        exact length_sort_namesTo.trans_le hd
      · rw [listOf_of_many (not_le.mp hfew) fun d => not_le.mp fun h => hsome ⟨d, h⟩]
        exact List.length_take_le ..
  whole := by
    refine ⟨?_, listOf_of_few⟩
    intro hlist
    by_contra hfew
    by_cases hsome : ∃ d, (namesTo items root (some d)).card ≤ limit
    · obtain ⟨d, -, hreduced⟩ := listOf_of_fitting (not_le.mp hfew) hsome
      simp [hlist] at hreduced
    · have hcapped := listOf_of_many (not_le.mp hfew) fun d => not_le.mp fun h => hsome ⟨d, h⟩
      simp [hlist] at hcapped
  reduced hmany hsome := by
    obtain ⟨d, hgreatest, hlist⟩ := listOf_of_fitting hmany hsome
    refine ⟨d, hgreatest, hlist, ?_⟩
    rw [hlist]
    rfl
  capped hmany hnone := by
    have hlist := listOf_of_many hmany hnone
    refine ⟨hlist, ?_⟩
    rw [hlist]
    rfl

/-- **What a listing shows under a limit.** Down to each depth a directory has the names of
what lies in it at most that deep and is not hidden, in directories that can be read. A listing
shows those down to the depth that was asked for, or else to the greatest one with few enough,
or else the first ones. That is so of whatever was come by, also where other directories were
passed over. -/
theorem list_fits (hwf : tree.WellFormed) (root directory : Path) (depth : Option Nat)
    (limit : Nat) :
    (∀ depth said, said ∈ namesTo (tree.items directory) root depth ↔ ∃ real mode names entry,
      tree.find true (Path.text directory) = .ok ⟨real, some (.directory mode)⟩ ∧ names ≠ [] ∧
      tree.get? (real ++ names) = some entry ∧ (∀ name ∈ names, Path.isHidden name = false) ∧
      Path.isReadable (directory ++ names.dropLast) = true ∧
      (∀ d ∈ depth, names.length ≤ d + 1) ∧
      (itemOf directory (names, entry)).text root = said) ∧
    Fits (namesTo (tree.items directory) root) depth limit
      (list tree root directory depth limit) ∧
    ∀ items, Fits (namesTo items root) depth limit (listOf items root depth limit) :=
  ⟨fun _ _ => mem_namesTo_items_iff hwf, fits_listOf .., fun items => fits_listOf items ..⟩

/-- A project with a directory, a file in it and one beside it, and a hidden directory. -/
def nestedTree : Tree :=
  ⟨[(["p"], .directory 0o755), (["p", "a"], .directory 0o755),
    (["p", "a", "x.py"], .file 0o644 (.text "x\n")), (["p", "b.py"], .file 0o644 (.text "y\n")),
    (["p", ".git"], .directory 0o755), (["p", ".git", "HEAD"], .file 0o644 (.text "z\n"))], []⟩

/-- Of three names two are shown: those of the directory itself. -/
theorem list_fits_nestedTree :
    nestedTree.WellFormed ∧ (namesTo (nestedTree.items ["p"]) ["p"] none).card = 3 ∧
    (list nestedTree ["p"] ["p"] none 2).note = some (.reduced 0 2) := by
  have hwf : nestedTree.WellFormed := by decide
  obtain ⟨-, hfits, -⟩ := list_fits hwf ["p"] ["p"] none 2
  have hall : (namesTo (nestedTree.items ["p"]) ["p"] none).card = 3 := by decide +kernel
  have hzero : (namesTo (nestedTree.items ["p"]) ["p"] (some 0)).card = 2 := by decide +kernel
  have hone : (namesTo (nestedTree.items ["p"]) ["p"] (some 1)).card = 3 := by decide +kernel
  obtain ⟨d, ⟨hd, -⟩, hlist, -⟩ := hfits.reduced (by omega) ⟨0, by omega⟩
  obtain rfl : d = 0 := by
    by_contra hne
    have hmore : namesTo (nestedTree.items ["p"]) ["p"] (some 1) ⊆ namesTo (nestedTree.items ["p"]) ["p"] (some d) :=
      namesTo_mono (Nat.one_le_iff_ne_zero.mpr hne)
    have hfew : (namesTo (nestedTree.items ["p"]) ["p"] (some d)).card ≤ 2 := hd
    have := Finset.card_le_card hmore
    omega
  exact ⟨hwf, hall, by rw [hlist, hzero]⟩

/-- Names of directories, one in the other, that together are too long for a written path. -/
def deepNames : Path := List.replicate 17 (String.ofList (List.replicate 250 'd'))

/-- A directory with these directories in it, and a file in the last of them. -/
def deepTree : Tree :=
  ⟨(List.range 18).map (fun depth => ("p" :: deepNames.take depth, Entry.directory 0o755)) ++
    [("p" :: deepNames ++ ["f"], .file 0o644 (.text "x\n"))], []⟩

/-- There are few entries and none is hidden, but the listing has no note and lacks the file,
whose directory cannot be read. -/
theorem not_mem_list_deepTree :
    deepTree.WellFormed ∧
    deepTree.get? (["p"] ++ (deepNames ++ ["f"])) = some (.file 0o644 (.text "x\n")) ∧
    (∀ name ∈ deepNames ++ ["f"], Path.isHidden name = false) ∧
    deepTree.entries.length ≤ 100 ∧
    (list deepTree ["p"] ["p"] none 100).note = none ∧
    (itemOf ["p"] (deepNames ++ ["f"], .file 0o644 (.text "x\n"))).text ["p"] ∉
      (list deepTree ["p"] ["p"] none 100).entries := by
  have hplain : Path.Plain (deepNames ++ ["f"]) := by decide +kernel
  have hclear : ∀ name ∈ deepNames ++ ["f"], '\\' ∉ name.toList := by
    intro name mem
    rcases List.mem_append.mp mem with mem | mem
    · rw [List.eq_of_mem_replicate mem, String.toList_ofList]
      exact fun h => absurd (List.eq_of_mem_replicate h) (by decide)
    · rw [List.mem_singleton.mp mem]
      decide
  have hshown : (deepTree.items ["p"]).length = 17 ∧
      ∀ e ∈ deepTree.shown ["p"], e.2.isDirectory = true := by decide +kernel
  have hfew : (namesTo (deepTree.items ["p"]) ["p"] none).card ≤ 100 := by
    refine (List.toFinset_card_le _).trans ?_
    rw [List.length_map]
    exact (List.length_filter_le ..).trans (by omega)
  refine ⟨by decide +kernel, by decide +kernel, by decide +kernel, by decide, ?_, ?_⟩
  · rw [list, listOf_of_few hfew]
  · -- All that is shown are directories, whose names end with a slash.
    have hsaid : (itemOf ["p"] (deepNames ++ ["f"], .file 0o644 (.text "x\n"))).text ["p"] =
        Path.relativeText (deepNames ++ ["f"]) := by
      simp [itemOf, Item.text, Path.relativeTo, Entry.isDirectory, Path.slashes_relativeText hclear]
    rw [hsaid]
    intro mem
    obtain ⟨e, he, htext⟩ := mem_of_mem_list mem
    refine Path.relativeText_ne_append_end hplain (by simp)
      (Path.slashes (Path.relativeTo ["p"] (["p"] ++ e.1))) ?_
    rw [← htext]
    simp [itemOf, Item.text, hshown.2 e he]

end Workbench.Files
