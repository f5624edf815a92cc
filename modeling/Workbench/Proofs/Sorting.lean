/-
# Sorting by keys

A list that is sorted by a key has its keys in ascending order. If no two elements have the
same key, the list has one order only.

* `Sorting.pairwise_mergeSort` — a sorted list is in the order of its keys.
* `Sorting.mergeSort_of_perm` — **a list in the order of its keys comes back**, however it was
  shuffled.
-/

import Mathlib.Data.List.Nodup
import Mathlib.Order.Lattice

namespace Workbench.Sorting

variable {α β : Type} [LinearOrder β] {below : α → α → Bool} {as sorted : List α}

theorem pairwise_mergeSort (key : α → β) (hbelow : ∀ a b, below a b = true ↔ key a ≤ key b)
    (as : List α) :
    (as.mergeSort below).Pairwise fun a b => key a ≤ key b := by
  have hsorted : (as.mergeSort below).Pairwise fun a b => below a b = true := by
    apply List.pairwise_mergeSort
    · intro a b c hab hbc
      exact (hbelow a c).mpr (le_trans ((hbelow a b).mp hab) ((hbelow b c).mp hbc))
    · intro a b
      rcases le_total (key a) (key b) with hle | hle
      · simp [(hbelow a b).mpr hle]
      · simp [(hbelow b a).mpr hle]
  exact hsorted.imp fun {a b} h => (hbelow a b).mp h

/-- **A list in the order of its keys comes back** when it is sorted, however it was shuffled. -/
theorem mergeSort_of_perm (key : α → β) (hbelow : ∀ a b, below a b = true ↔ key a ≤ key b)
    (hkeys : sorted.Pairwise fun a b => key a < key b) (h : as.Perm sorted) :
    as.mergeSort below = sorted := by
  have hperm : (as.mergeSort below).Perm sorted := (List.mergeSort_perm ..).trans h
  have hnodup : (sorted.map key).Nodup := (List.pairwise_map.mpr hkeys).imp ne_of_lt
  refine hperm.eq_of_pairwise ?_ (pairwise_mergeSort key hbelow as) (hkeys.imp le_of_lt)
  -- The key of an element tells which one it is.
  intro a b ha hb hab hba
  exact List.inj_on_of_nodup_map hnodup (hperm.subset ha) hb (le_antisymm hab hba)

end Workbench.Sorting
