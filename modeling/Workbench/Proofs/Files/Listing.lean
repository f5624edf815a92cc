/-
# What listings show

A listing is made of what is below a directory and not hidden, each with the names that
lead there from the directory.

* `Tree.mem_shown_iff` — **what is shown in a directory**.
* `mem_levels_iff`, `mem_of_mem_list` — what the entries of listings are.
* `Tree.find_below` — where paths lead that go by way of a directory.
-/

import Workbench.Files.Listing
import Workbench.Proofs.Files.Rewriting

namespace Workbench.Files

variable {tree : Tree} {root directory real names : Path} {said : String} {entry : Entry}

/-! ### What is below a directory -/

theorem Path.utf8ByteSize_text_le (path rest : Path) :
    (Path.text path).utf8ByteSize ≤ (Path.text (path ++ rest)).utf8ByteSize := by
  induction rest using List.reverseRecOn with
  | nil => simp
  | append_singleton rest name ih =>
      rw [← List.append_assoc, Path.text_concat]
      split
      · next hnil =>
          rw [(List.append_eq_nil_iff.mp hnil).1]
          simp [Path.text]
      · simp only [String.utf8ByteSize_append]
        omega

/-- A directory on the way to one that can be read can be read as well. -/
theorem Path.isReadable_of_append {path rest : Path} (h : Path.isReadable (path ++ rest) = true) :
    Path.isReadable path = true := by
  have hsize := Path.utf8ByteSize_text_le path rest
  simp only [Path.isReadable, decide_eq_true_eq] at h ⊢
  omega

namespace Tree

/-- What is below a directory that is found where it is lies there, as far as it can be read. -/
theorem under_eq_filter {mode : Nat}
    (hfind : tree.find true (Path.text root) = .ok ⟨root, some (.directory mode)⟩) :
    tree.under root =
      (tree.below root).filter fun (names, _) => Path.isReadable (root ++ names.dropLast) := by
  rw [under, hfind]

theorem mem_below_iff (hwf : tree.WellFormed) :
    (names, entry) ∈ tree.below root ↔ names ≠ [] ∧ tree.get? (root ++ names) = some entry := by
  unfold below
  rw [List.mem_filterMap]
  constructor
  · rintro ⟨⟨other, found⟩, mem, h⟩
    obtain ⟨⟨⟨rest, rfl⟩, hne⟩, rfl, rfl⟩ :
        (root <+: other ∧ other ≠ root) ∧ other.drop root.length = names ∧ found = entry := by
      simpa using h
    rw [List.drop_left]
    exact ⟨by simpa using hne, hwf.get?_of_mem mem⟩
  · rintro ⟨hne, hentry⟩
    exact ⟨(root ++ names, entry), mem_of_get?_eq_some (by simp [hne]) hentry, by simp [hne]⟩

theorem pairwise_below (hwf : tree.WellFormed) (root : Path) :
    (tree.below root).Pairwise fun a b => a.1 ≠ b.1 := by
  refine List.pairwise_filterMap.mpr ((List.pairwise_map.mp hwf.distinct).imp ?_)
  rintro ⟨a, ea⟩ ⟨b, eb⟩ hne ⟨x, ex⟩ hx ⟨y, ey⟩ hy heq
  obtain ⟨⟨⟨rest, rfl⟩, -⟩, rfl, -⟩ :
      (root <+: a ∧ a ≠ root) ∧ a.drop root.length = x ∧ ea = ex := by simpa using hx
  obtain ⟨⟨⟨more, rfl⟩, -⟩, rfl, -⟩ :
      (root <+: b ∧ b ≠ root) ∧ b.drop root.length = y ∧ eb = ey := by simpa using hy
  exact hne (by simpa using heq)

theorem mem_children_iff {name : String} (hwf : tree.WellFormed) :
    (name, entry) ∈ tree.children root ↔ tree.get? (root ++ [name]) = some entry := by
  unfold children
  rw [List.mem_filterMap]
  constructor
  · rintro ⟨⟨names, found⟩, mem, h⟩
    match names, h with
    | [only], h =>
        obtain ⟨rfl, rfl⟩ : only = name ∧ found = entry := by simpa using h
        exact ((mem_below_iff hwf).mp mem).2
  · intro h
    exact ⟨([name], entry), (mem_below_iff hwf).mpr ⟨by simp, h⟩, rfl⟩

/-- **What is shown in a directory**: what is below the place where it really lies, unless a
name on the way there is hidden or the directory in which it lies cannot be read. -/
theorem mem_shown_iff (hwf : tree.WellFormed) :
    (names, entry) ∈ tree.shown directory ↔ ∃ real mode,
      tree.find true (Path.text directory) = .ok ⟨real, some (.directory mode)⟩ ∧ names ≠ [] ∧
      tree.get? (real ++ names) = some entry ∧ (∀ name ∈ names, Path.isHidden name = false) ∧
      Path.isReadable (directory ++ names.dropLast) = true := by
  rw [shown, List.mem_filter, under]
  constructor
  · rintro ⟨mem, hshown⟩
    split at mem
    · next real mode hfind =>
        obtain ⟨hbelow, hread⟩ := List.mem_filter.mp mem
        obtain ⟨hne, hentry⟩ := (mem_below_iff hwf).mp hbelow
        exact ⟨real, mode, hfind, hne, hentry, by simpa using hshown, hread⟩
    · simp at mem
  · rintro ⟨real, mode, hfind, hne, hentry, hshown, hread⟩
    rw [hfind]
    exact ⟨List.mem_filter.mpr ⟨(mem_below_iff hwf).mpr ⟨hne, hentry⟩, hread⟩,
      by simpa using hshown⟩

/-- The files and directories that are shown in a directory, links left aside. -/
def regular (tree : Tree) (directory : Path) : List (Path × Entry) :=
  (tree.shown directory).filter fun e => e.2.isFile || e.2.isDirectory

theorem mem_regular_iff {e : Path × Entry} :
    e ∈ tree.regular directory ↔ e ∈ tree.shown directory ∧ ∀ target, e.2 ≠ .link target := by
  rw [regular, List.mem_filter]
  refine and_congr_right fun _ => ?_
  cases e.2 <;> simp [Entry.isFile, Entry.isDirectory]

/-- A path on the way to something below a directory leads there by way of the directory. -/
theorem find_below (hwf : tree.WellFormed) (hplain : Path.Plain (directory ++ names))
    {place : Place} {mode : Nat}
    (hfind : tree.find true (Path.text directory) = .ok ⟨real, some (.directory mode)⟩)
    (hentry : tree.get? (real ++ names) = some entry) (hno : ∀ target, entry ≠ .link target)
    {part : Path} (hpart : part <+: names)
    (hplace : tree.find true (Path.text (directory ++ part)) = .ok place) :
    place.path = real ++ part := by
  induction part using List.reverseRecOn generalizing place with
  | nil =>
      obtain rfl : (⟨real, some (.directory mode)⟩ : Place) = place := by simpa [hfind] using hplace
      simp
  | append_singleton part name ih =>
      have hbefore : part <+: names := (List.prefix_append ..).trans hpart
      rw [← List.append_assoc] at hplace
      have hway : directory ++ part ++ [name] <+: directory ++ names := by
        rw [List.append_assoc]
        exact (List.prefix_append_right_inj _).mpr hpart
      obtain ⟨base, _, hdir, -, rfl⟩ := exists_of_find_concat hwf (hplain.of_isPrefix hway)
        (fun _ above habove target => by
          rw [ih hbefore habove, List.append_assoc]
          exact not_link_above hwf hentry hno ((List.prefix_append_right_inj _).mpr hpart) target)
        hplace
      have hbase : base = real ++ part := ih hbefore hdir
      simp [hbase]

end Tree

/-! ### Entries of listings -/

theorem mem_distinct {texts : List String} : said ∈ distinct texts ↔ said ∈ texts := by
  induction texts using distinct.induct with
  | case1 a rest ih => simp [distinct, ih]
  | case2 a b rest hne ih => simp [distinct, hne, ih]
  | case3 texts hshort =>
      rw [distinct]
      exact hshort

theorem sorted_eq_self {texts : List String} (h : texts.Pairwise (· ≤ ·)) :
    sorted texts = texts :=
  List.mergeSort_of_pairwise (by simpa using h)

theorem mem_sorted {texts : List String} : said ∈ sorted texts ↔ said ∈ texts :=
  List.mem_mergeSort

/-- What a listing shows of something below a directory. -/
def itemOf (directory : Path) (e : Path × Entry) : Item :=
  ⟨directory ++ e.1, e.1.length, e.2.isDirectory⟩

theorem mem_items_iff {item : Item} :
    item ∈ tree.items directory ↔ ∃ e ∈ tree.shown directory, itemOf directory e = item := by
  unfold Tree.items itemOf
  exact List.mem_map

theorem mem_levels_iff {count : Nat} :
    said ∈ levels tree root directory count ↔ ∃ e ∈ tree.shown directory,
      e.1.length ≤ max count 1 ∧ (itemOf directory e).text root = said := by
  rw [levels, mem_sorted]
  constructor
  · intro h
    obtain ⟨item, hitem, rfl⟩ := List.mem_map.mp h
    obtain ⟨mem, hlevel⟩ := List.mem_filter.mp hitem
    obtain ⟨e, he, rfl⟩ := mem_items_iff.mp mem
    exact ⟨e, he, by simpa [itemOf] using hlevel, rfl⟩
  · rintro ⟨e, he, hlevel, rfl⟩
    exact List.mem_map_of_mem (List.mem_filter.mpr
      ⟨mem_items_iff.mpr ⟨e, he, rfl⟩, by simpa [itemOf] using hlevel⟩)

theorem mem_entriesTo {items : List Item} {depth : Option Nat}
    (h : said ∈ entriesTo items root depth) :
    ∃ item ∈ items, item.text root = said := by
  rw [entriesTo, mem_distinct, mem_sorted] at h
  obtain ⟨item, hitem, rfl⟩ := List.mem_map.mp h
  exact ⟨item, (List.mem_filter.mp hitem).1, rfl⟩

theorem mem_of_mem_list {depth : Option Nat} {limit : Nat}
    (h : said ∈ (list tree root directory depth limit).entries) :
    ∃ e ∈ tree.shown directory, (itemOf directory e).text root = said := by
  obtain ⟨depth, hentries⟩ : ∃ depth, said ∈ entriesTo (tree.items directory) root depth := by
    simp only [list, listOf] at h
    split at h
    · exact ⟨depth, h⟩
    · split at h
      · next d _ => exact ⟨some d, h⟩
      · exact ⟨some 0, List.mem_of_mem_take h⟩
  obtain ⟨item, hitem, rfl⟩ := mem_entriesTo hentries
  obtain ⟨e, he, rfl⟩ := mem_items_iff.mp hitem
  exact ⟨e, he, rfl⟩

end Workbench.Files
