/-
# Looking up entries

What is at a place after a change, and what makes a tree one that a file system can
be in: no place is given twice, every name is the name of an entry, and every entry
lies in a directory.

* `Tree.HasDirectory` — a place is a directory.
* `Tree.WellFormed` — the invariant of file trees; `WellFormed.put`, `WellFormed.erase`
  are the changes that keep it.
* `Tree.erase_put` — putting an entry at a free place and erasing it changes nothing.
-/

import Mathlib.Data.List.Induction
import Mathlib.Data.List.Nodup
import Workbench.Files.Tree
import Workbench.Proofs.Files.Spelling

namespace Workbench.Files.Tree

variable {tree : Tree} {path other : Path} {entry : Entry}

/-! ### Entries by their places -/

@[simp] theorem get?_nil (tree : Tree) : tree.get? [] = some (.directory directoryMode) := by
  simp [get?]

theorem get?_of_ne_nil (tree : Tree) (hne : path ≠ []) :
    tree.get? path = (tree.entries.find? (·.1 == path)).map (·.2) := by
  simp [get?, hne]

theorem ne_nil_of_get?_eq_none (h : tree.get? path = none) : path ≠ [] := by
  rintro rfl
  simp at h

theorem mem_of_get?_eq_some (hne : path ≠ []) (h : tree.get? path = some entry) :
    (path, entry) ∈ tree.entries := by
  rw [get?_of_ne_nil tree hne] at h
  obtain ⟨⟨found, e⟩, hfind, rfl⟩ := Option.map_eq_some_iff.mp h
  have : found = path := by simpa using List.find?_some hfind
  exact this ▸ List.mem_of_find?_eq_some hfind

theorem not_mem_of_get?_eq_none (h : tree.get? path = none) :
    path ∉ tree.entries.map (·.1) := by
  rw [get?_of_ne_nil tree (ne_nil_of_get?_eq_none h), Option.map_eq_none_iff,
    List.find?_eq_none] at h
  simpa using fun e mem => h (path, e) mem (by simp)

theorem find?_putIn_self (path : Path) (entry : Entry) (entries : List (Path × Entry)) :
    (putIn path entry entries).find? (·.1 == path) = some (path, entry) := by
  induction entries with
  | nil => simp [putIn]
  | cons first rest ih =>
      obtain ⟨place, old⟩ := first
      by_cases h : place = path
      · simp [putIn, h]
      · simp [putIn, h, ih]

theorem find?_putIn_of_ne (hne : other ≠ path) (entry : Entry) (entries : List (Path × Entry)) :
    (putIn path entry entries).find? (·.1 == other) = entries.find? (·.1 == other) := by
  induction entries with
  | nil => simp [putIn, hne.symm]
  | cons first rest ih =>
      obtain ⟨place, old⟩ := first
      by_cases h : place = path
      · simp [putIn, h, hne.symm]
      · by_cases ho : place = other <;> simp [putIn, h, ho, ih, hne]

theorem find?_filter_of_ne (hne : other ≠ path) (entries : List (Path × Entry)) :
    (entries.filter (·.1 != path)).find? (·.1 == other) = entries.find? (·.1 == other) := by
  rw [List.find?_filter]
  congr 1
  funext e
  by_cases h : e.1 = other <;> simp [h, hne]

theorem get?_put_self (tree : Tree) (hne : path ≠ []) (entry : Entry) :
    (tree.put path entry).get? path = some entry := by
  simp [get?_of_ne_nil _ hne, put, find?_putIn_self]

theorem get?_put_of_ne (tree : Tree) (hne : other ≠ path) (entry : Entry) :
    (tree.put path entry).get? other = tree.get? other := by
  by_cases ho : other = []
  · simp [ho]
  · simp [get?_of_ne_nil _ ho, put, find?_putIn_of_ne hne]

theorem get?_erase_self (tree : Tree) (hne : path ≠ []) : (tree.erase path).get? path = none := by
  simp [get?_of_ne_nil _ hne, erase]

theorem get?_erase_of_ne (tree : Tree) (hne : other ≠ path) :
    (tree.erase path).get? other = tree.get? other := by
  by_cases ho : other = []
  · simp [ho]
  · simp [get?_of_ne_nil _ ho, erase, find?_filter_of_ne hne]

/-! ### Changes of the list of entries -/

theorem putIn_of_not_mem {entries : List (Path × Entry)} (h : path ∉ entries.map (·.1))
    (entry : Entry) : putIn path entry entries = entries ++ [(path, entry)] := by
  induction entries with
  | nil => rfl
  | cons first rest ih =>
      obtain ⟨place, old⟩ := first
      obtain ⟨hne, hrest⟩ : path ≠ place ∧ path ∉ rest.map (·.1) := by simpa using h
      rw [putIn, if_neg hne.symm, ih hrest, List.cons_append]

theorem putIn_putIn (path : Path) (first second : Entry) (entries : List (Path × Entry)) :
    putIn path second (putIn path first entries) = putIn path second entries := by
  induction entries with
  | nil => simp [putIn]
  | cons head rest ih =>
      obtain ⟨place, old⟩ := head
      by_cases h : place = path
      · simp [putIn, h]
      · simp [putIn, h, ih]

theorem map_fst_putIn (path : Path) (entry : Entry) (entries : List (Path × Entry)) :
    (putIn path entry entries).map (·.1) =
      if path ∈ entries.map (·.1) then entries.map (·.1) else entries.map (·.1) ++ [path] := by
  induction entries with
  | nil => simp [putIn]
  | cons head rest ih =>
      obtain ⟨place, old⟩ := head
      by_cases h : place = path
      · simp [putIn, h]
      · simp only [putIn, if_neg h, List.map_cons, ih, List.mem_cons, Ne.symm h, false_or]
        split <;> simp

theorem mem_of_mem_putIn {entries : List (Path × Entry)} {e : Path × Entry}
    (h : e ∈ putIn path entry entries) : e = (path, entry) ∨ e ∈ entries := by
  induction entries with
  | nil => exact .inl (by simpa [putIn] using h)
  | cons head rest ih =>
      obtain ⟨place, old⟩ := head
      rw [putIn] at h
      split at h
      · rcases List.mem_cons.mp h with rfl | h
        · exact .inl rfl
        · exact .inr (.tail _ h)
      · rcases List.mem_cons.mp h with rfl | h
        · exact .inr (.head _)
        · exact (ih h).imp_right (.tail _)

theorem put_put (tree : Tree) (path : Path) (first second : Entry) :
    (tree.put path first).put path second = tree.put path second := by
  simp [put, putIn_putIn]

/-- **Putting an entry at a free place and erasing it** changes nothing. -/
theorem erase_put (h : tree.get? path = none) (entry : Entry) :
    (tree.put path entry).erase path = tree := by
  have hfree := not_mem_of_get?_eq_none h
  have hkeep : tree.entries.filter (·.1 != path) = tree.entries := by
    refine List.filter_eq_self.mpr fun e mem => ?_
    simpa using fun he : e.1 = path => hfree (he ▸ List.mem_map_of_mem mem)
  simp [put, erase, putIn_of_not_mem hfree, hkeep]

theorem get?_prune (tree : Tree) (hne : other ≠ []) :
    (tree.prune path).get? other = if path <+: other then none else tree.get? other := by
  rw [get?_of_ne_nil _ hne, get?_of_ne_nil _ hne, prune, List.find?_filter]
  split
  · next h =>
      rw [List.find?_eq_none.mpr, Option.map_none]
      intro e _
      by_cases heq : e.1 = other
      · simp [heq, h]
      · simp [heq]
  · next h =>
      congr 2
      funext e
      by_cases heq : e.1 = other
      · simp [heq, Bool.eq_false_iff.mpr (mt List.isPrefixOf_iff_prefix.mp h)]
      · simp [heq]

/-! ### Directories -/

/-- There is a directory at a place. -/
def HasDirectory (tree : Tree) (path : Path) : Prop :=
  (tree.get? path).any Entry.isDirectory = true

instance (tree : Tree) (path : Path) : Decidable (tree.HasDirectory path) :=
  inferInstanceAs (Decidable (_ = true))

theorem hasDirectory_iff :
    tree.HasDirectory path ↔ ∃ mode, tree.get? path = some (.directory mode) := by
  unfold HasDirectory
  cases h : tree.get? path with
  | none => simp
  | some entry => cases entry <;> simp [Entry.isDirectory]

theorem hasDirectory_nil (tree : Tree) : tree.HasDirectory [] :=
  hasDirectory_iff.mpr ⟨_, get?_nil tree⟩

theorem HasDirectory.put (h : tree.HasDirectory other)
    (hkeep : tree.HasDirectory path → entry.isDirectory = true) :
    (tree.put path entry).HasDirectory other := by
  by_cases hne : other = path
  · subst hne
    by_cases hnil : other = []
    · exact hnil ▸ hasDirectory_nil _
    · simpa [HasDirectory, get?_put_self _ hnil] using hkeep h
  · rwa [HasDirectory, get?_put_of_ne tree hne]

theorem HasDirectory.erase (h : tree.HasDirectory other) (hno : ¬ tree.HasDirectory path) :
    (tree.erase path).HasDirectory other := by
  have hne : other ≠ path := fun heq => hno (heq ▸ h)
  rwa [HasDirectory, get?_erase_of_ne tree hne]

/-! ### Well-formed trees -/

/-- A tree that a file system can be in. -/
structure WellFormed (tree : Tree) : Prop where
  distinct : (tree.entries.map (·.1)).Nodup
  named : ∀ e ∈ tree.entries, e.1 ≠ [] ∧ Path.Plain e.1
  rooted : ∀ e ∈ tree.entries, tree.HasDirectory e.1.dropLast

instance (tree : Tree) : Decidable tree.WellFormed :=
  decidable_of_iff ((tree.entries.map (·.1)).Nodup ∧
      (∀ e ∈ tree.entries, e.1 ≠ [] ∧ Path.Plain e.1) ∧
      ∀ e ∈ tree.entries, tree.HasDirectory e.1.dropLast)
    ⟨fun ⟨distinct, named, rooted⟩ => ⟨distinct, named, rooted⟩,
      fun h => ⟨h.distinct, h.named, h.rooted⟩⟩

namespace WellFormed

theorem plain (hwf : tree.WellFormed) (h : tree.get? path = some entry) : Path.Plain path := by
  by_cases hne : path = []
  · exact hne ▸ Path.plain_nil
  · exact (hwf.named _ (mem_of_get?_eq_some hne h)).2

theorem parent (hwf : tree.WellFormed) (h : tree.get? path = some entry) :
    tree.HasDirectory path.dropLast := by
  by_cases hne : path = []
  · exact hne ▸ hasDirectory_nil tree
  · exact hwf.rooted _ (mem_of_get?_eq_some hne h)

theorem get?_of_mem (hwf : tree.WellFormed) {e : Path × Entry} (mem : e ∈ tree.entries) :
    tree.get? e.1 = some e.2 := by
  have hsome : ((tree.entries.find? (·.1 == e.1)).map (·.2)).isSome = true := by
    simpa using ⟨e.2, mem⟩
  cases h : tree.get? e.1 with
  | none =>
      rw [get?_of_ne_nil tree (hwf.named e mem).1] at h
      simp [h] at hsome
  | some entry =>
      have hfound := mem_of_get?_eq_some (hwf.named e mem).1 h
      have := List.inj_on_of_nodup_map hwf.distinct hfound mem rfl
      simpa using congrArg Prod.snd this

/-- Every place on the way to an entry is a directory. -/
theorem above (hwf : tree.WellFormed) (h : tree.get? path = some entry) (hp : other <+: path)
    (hne : other ≠ path) : tree.HasDirectory other := by
  obtain ⟨rest, rfl⟩ := hp
  induction rest using List.reverseRecOn generalizing entry with
  | nil => simp at hne
  | append_singleton rest name ih =>
      have hparent : tree.HasDirectory (other ++ rest) := by
        simpa [← List.append_assoc] using hwf.parent h
      by_cases hrest : rest = []
      · simpa [hrest] using hparent
      · obtain ⟨mode, hmode⟩ := hasDirectory_iff.mp hparent
        exact ih hmode (by simpa using hrest)

/-- Every place on the way to a directory is one. -/
theorem hasDirectory_above (hwf : tree.WellFormed) (hdir : tree.HasDirectory path)
    (hp : other <+: path) : tree.HasDirectory other := by
  obtain ⟨mode, hmode⟩ := hasDirectory_iff.mp hdir
  by_cases heq : other = path
  · exact heq ▸ hdir
  · exact hwf.above hmode hp heq

/-- Nothing lies below a place where there is no directory. -/
theorem get?_below (hwf : tree.WellFormed) (hno : ¬ tree.HasDirectory path) (name : String) :
    tree.get? (path ++ [name]) = none := by
  cases h : tree.get? (path ++ [name]) with
  | none => rfl
  | some entry => exact absurd (by simpa using hwf.parent h) hno

/-- An entry may be put into a directory, if it does not take the place of another
directory with what is in it. -/
theorem put (hwf : tree.WellFormed) (hne : path ≠ []) (hplain : Path.Plain path)
    (hparent : tree.HasDirectory path.dropLast)
    (hkeep : tree.HasDirectory path → entry.isDirectory = true) :
    (tree.put path entry).WellFormed where
  distinct := by
    rw [Tree.put, map_fst_putIn]
    split
    · exact hwf.distinct
    · next h =>
        refine List.nodup_append.mpr ⟨hwf.distinct, by simp, ?_⟩
        rintro a ha b hb rfl
        exact h (List.mem_singleton.mp hb ▸ ha)
  named := by
    intro e mem
    rcases mem_of_mem_putIn mem with rfl | old
    · exact ⟨hne, hplain⟩
    · exact hwf.named e old
  rooted := by
    intro e mem
    rcases mem_of_mem_putIn mem with rfl | old
    · exact hparent.put hkeep
    · exact (hwf.rooted e old).put hkeep

theorem erase (hwf : tree.WellFormed) (hno : ¬ tree.HasDirectory path) :
    (tree.erase path).WellFormed where
  distinct := hwf.distinct.sublist (List.filter_sublist.map _)
  named := fun e mem => hwf.named e (List.mem_filter.mp mem).1
  rooted := fun e mem => (hwf.rooted e (List.mem_filter.mp mem).1).erase hno

/-- What is at or below a place can be taken away. -/
theorem prune (hwf : tree.WellFormed) (path : Path) : (tree.prune path).WellFormed where
  distinct := hwf.distinct.sublist (List.filter_sublist.map _)
  named := fun e mem => hwf.named e (List.mem_filter.mp mem).1
  rooted := by
    intro e mem
    obtain ⟨old, hkeep⟩ := List.mem_filter.mp mem
    by_cases hnil : e.1.dropLast = []
    · exact hnil ▸ hasDirectory_nil _
    · have hno : ¬ path <+: e.1.dropLast := fun h => by
        simp [List.isPrefixOf_iff_prefix.mpr (h.trans (List.dropLast_prefix e.1))] at hkeep
      rw [HasDirectory, get?_prune tree hnil, if_neg hno]
      exact hwf.rooted e old

end WellFormed

end Workbench.Files.Tree
