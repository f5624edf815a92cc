/-
# Vectors for texts

The items of a response count under the indices that they name; one that names none counts
under its position. The vectors of a response are those of its items in the order of these
indices, and of items with one index the first comes first. What is compared with the texts is
only how many items there are: an index may be repeated, left out, or too large.

* `vectors_eq_ok_iff` — **what the vectors of a response are**.
* `assigned_iff` — **when every text gets its own vector**.
* `embed_assigns_iff` — which responses an embedder over HTTP accepts, and for which of them
  it assigns the vectors to their texts.
* `embed_repeatedText` — a response that it accepts and assigns wrongly.
-/

import Mathlib.Data.Fintype.EquivFin
import Mathlib.Data.List.FinRange
import Mathlib.Data.List.Perm.Subperm
import Mathlib.Tactic.Choose
import Workbench.Proofs.Attempt
import Workbench.Service.Embedder

namespace Workbench.Service

open Workbench.Json Workbench.Vector

variable {σ : Type} {items : List Value} {body item : Value} {found : List Embedding}

/-! ### Reading items -/

/-- The index under which an item of a response counts: the one it names, or its position. -/
def indexOf (item : Value) (position : Nat) : Nat :=
  ((item.field? "index").bind Value.natural?).getD position

/-- The vector of an item of a response, if it has one. -/
def vectorOf? (item : Value) : Option Embedding :=
  ((item.field? "embedding").bind Value.items?).map fun values =>
    values.map fun v => Single.round (v.double?.getD 0.0)

/-- The items of a response, if it has any. -/
def itemsOf? (body : Value) : Option (List Value) :=
  (body.field? "data").bind Value.items?

/-- The index under which the item at a position counts. -/
def indexAt (items : List Value) (p : Fin items.length) : Nat :=
  indexOf items[p] p

theorem indexedVector_eq_ok_iff {position : Nat} {pair : Nat × Embedding} :
    indexedVector item position = .ok pair ↔
      indexOf item position = pair.1 ∧ vectorOf? item = some pair.2 := by
  obtain ⟨index, vector⟩ := pair
  unfold indexedVector vectorOf? indexOf
  cases (item.field? "embedding").bind Value.items? <;> simp

theorem zipIdx_eq_map_finRange {α : Type} (as : List α) :
    as.zipIdx = (List.finRange as.length).map fun p => (as[p], p.val) := by
  apply List.ext_getElem
  · simp
  · intro i _ _
    simp

/-- The items of a response are read if each of them has a vector. -/
theorem indexedVectors_eq (hitems : itemsOf? body = some items)
    {vector : Fin items.length → Embedding} (hvector : ∀ p, vectorOf? items[p] = some (vector p)) :
    indexedVectors body =
      .ok ((List.finRange items.length).map fun p => (indexAt items p, vector p)) := by
  have hread (p : Fin items.length) :
      indexedVector items[p] p = .ok (indexAt items p, vector p) :=
    indexedVector_eq_ok_iff.mpr ⟨rfl, hvector p⟩
  unfold itemsOf? at hitems
  simp only [indexedVectors, hitems]
  rw [Attempt.mapM_eq_ok_iff, zipIdx_eq_map_finRange, List.map_map, List.map_map]
  exact List.map_congr_left fun p _ => hread p

theorem exists_items_of_indexedVectors {pairs : List (Nat × Embedding)}
    (h : indexedVectors body = .ok pairs) :
    ∃ items, itemsOf? body = some items ∧ ∀ p : Fin items.length, (vectorOf? items[p]).isSome := by
  unfold indexedVectors at h
  unfold itemsOf?
  cases hitems : (body.field? "data").bind Value.items? with
  | none => simp [hitems] at h
  | some items =>
      simp only [hitems] at h
      rw [Attempt.mapM_eq_ok_iff, zipIdx_eq_map_finRange, List.map_map] at h
      refine ⟨items, rfl, ?_⟩
      intro p
      have hmem : indexedVector items[p] p ∈ pairs.map .ok := by
        rw [← h]
        exact List.mem_map_of_mem (List.mem_finRange p)
      obtain ⟨pair, -, hpair⟩ := List.mem_map.mp hmem
      rw [(indexedVector_eq_ok_iff.mp hpair.symm).2]
      rfl

/-! ### The order of items -/

/-- All positions of items in the order of the indices under which the items count; of one
index the first position comes first. -/
structure InOrder (items : List Value) (order : List (Fin items.length)) : Prop where
  perm : order.Perm (List.finRange items.length)
  pairwise : order.Pairwise fun p q =>
    indexAt items p < indexAt items q ∨ indexAt items p = indexAt items q ∧ p < q

/-- The positions of items, sorted by the indices under which the items count. -/
def byIndex (items : List Value) : List (Fin items.length) :=
  (List.finRange items.length).mergeSort fun p q => decide (indexAt items p ≤ indexAt items q)

theorem InOrder.length_eq {order : List (Fin items.length)} (h : InOrder items order) :
    order.length = items.length := by
  rw [h.perm.length_eq, List.length_finRange]

theorem inOrder_byIndex (items : List Value) : InOrder items (byIndex items) where
  perm := List.mergeSort_perm ..
  pairwise := by
    -- Sorting is stable: positions are sorted with their numbers, which decide between equals.
    let below (p q : Fin items.length) : Bool := decide (indexAt items p ≤ indexAt items q)
    have htrans (p q r : Fin items.length) (hpq : below p q = true) (hqr : below q r = true) :
        below p r = true :=
      decide_eq_true ((of_decide_eq_true hpq).trans (of_decide_eq_true hqr))
    have htotal (p q : Fin items.length) : (below p q || below q p) = true := by
      simpa [below] using Nat.le_total (indexAt items p) (indexAt items q)
    let numbered := (List.finRange items.length).zipIdx.mergeSort (List.zipIdxLE below)
    have hsorted : numbered.Pairwise fun a b => List.zipIdxLE below a b = true :=
      List.pairwise_mergeSort (List.zipIdxLE_trans htrans) (List.zipIdxLE_total htotal) _
    have hnodup : numbered.Nodup := by
      rw [(List.mergeSort_perm ..).nodup_iff]
      apply List.Nodup.of_map Prod.fst
      rw [List.zipIdx_map_fst]
      exact List.nodup_finRange _
    have hnumber {e : Fin items.length × Nat} (mem : e ∈ numbered) : e.2 = e.1 := by
      have hget := List.mem_zipIdx_iff_getElem?.mp (List.mem_mergeSort.mp mem)
      obtain ⟨hlt, hget⟩ := List.getElem?_eq_some_iff.mp hget
      rw [← hget, List.getElem_finRange]
      rfl
    rw [byIndex, ← List.mergeSort_zipIdx, List.pairwise_map]
    refine (hsorted.and hnodup).imp_of_mem ?_
    rintro ⟨p, i⟩ ⟨q, j⟩ hp hq ⟨hle, hne⟩
    obtain rfl : i = p := hnumber hp
    obtain rfl : j = q := hnumber hq
    simp only [List.zipIdxLE, below, ne_eq, Prod.mk.injEq] at hle hne
    grind

/-- There is one such order. -/
theorem InOrder.eq {order other : List (Fin items.length)} (h : InOrder items order)
    (hother : InOrder items other) : order = other := by
  refine List.Perm.eq_of_pairwise ?_ h.pairwise hother.pairwise (h.perm.trans hother.perm.symm)
  intro p q _ _ hpq hqp
  omega

/-- The items of a response have these vectors, in the order of their indices. -/
def Yields (items : List Value) (found : List Embedding) : Prop :=
  ∃ order, InOrder items order ∧ order.map (fun p => vectorOf? items[p]) = found.map some

theorem Yields.length_eq (h : Yields items found) : found.length = items.length := by
  obtain ⟨order, horder, hfound⟩ := h
  calc found.length = (found.map some).length := List.length_map some |>.symm
    _ = order.length := by rw [← hfound, List.length_map]
    _ = items.length := horder.length_eq

theorem yields_byIndex {vector : Fin items.length → Embedding}
    (hvector : ∀ p, vectorOf? items[p] = some (vector p)) :
    Yields items ((byIndex items).map vector) := by
  refine ⟨byIndex items, inOrder_byIndex items, ?_⟩
  rw [List.map_map]
  exact List.map_congr_left fun p _ => hvector p

/-- Items have vectors in an order if each of them has a vector. -/
theorem exists_yields_iff :
    (∃ found, Yields items found) ↔ ∀ p : Fin items.length, (vectorOf? items[p]).isSome := by
  constructor
  · rintro ⟨found, order, horder, hfound⟩ p
    have hmem : vectorOf? items[p] ∈ found.map some := by
      rw [← hfound]
      exact List.mem_map_of_mem (horder.perm.mem_iff.mpr (List.mem_finRange p))
    obtain ⟨v, -, hv⟩ := List.mem_map.mp hmem
    rw [← hv]
    rfl
  · intro h
    choose vector hvector using fun p => Option.isSome_iff_exists.mp (h p)
    exact ⟨_, yields_byIndex hvector⟩

/-- The vectors of items are in one order only. -/
theorem Yields.eq {other : List Embedding} (h : Yields items found) (hother : Yields items other) :
    found = other := by
  obtain ⟨order, horder, hfound⟩ := h
  obtain ⟨order', horder', hfound'⟩ := hother
  obtain rfl := horder.eq horder'
  exact List.map_injective_iff.mpr (Option.some_injective _) (hfound.symm.trans hfound')

/-- **The vectors of a response** are those of its items in the order of their indices, if each
item has one. -/
theorem vectors_eq_ok_iff :
    vectors body = .ok found ↔ ∃ items, itemsOf? body = some items ∧ Yields items found := by
  have hsorted {items : List Value} (hitems : itemsOf? body = some items)
      (hall : ∀ p : Fin items.length, (vectorOf? items[p]).isSome) :
      ∃ found, vectors body = .ok found ∧ Yields items found := by
    choose vector hvector using fun p => Option.isSome_iff_exists.mp (hall p)
    refine ⟨_, ?_, yields_byIndex hvector⟩
    rw [vectors, indexedVectors_eq hitems hvector, Except.map, ← List.map_mergeSort
      (r := fun p q => decide (indexAt items p ≤ indexAt items q)) fun _ _ _ _ => rfl,
      List.map_map]
    rfl
  constructor
  · intro h
    obtain ⟨pairs, hpairs⟩ : ∃ pairs, indexedVectors body = .ok pairs := by
      cases hpairs : indexedVectors body with
      | error fault => simp [vectors, hpairs, Except.map] at h
      | ok pairs => exact ⟨pairs, rfl⟩
    obtain ⟨items, hitems, hall⟩ := exists_items_of_indexedVectors hpairs
    obtain ⟨other, hother, hyields⟩ := hsorted hitems hall
    obtain rfl : found = other := Except.ok.inj (h.symm.trans hother)
    exact ⟨items, hitems, hyields⟩
  · rintro ⟨items, hitems, hyields⟩
    obtain ⟨other, hother, hyields'⟩ := hsorted hitems (exists_yields_iff.mp ⟨found, hyields⟩)
    rw [hyields.eq hyields', hother]

/-! ### Which text a vector is for -/

/-- Every text gets its own vector: exactly one item counts under the position of the text, and
the vector there is that of this item. -/
structure Assigned (items : List Value) (found : List Embedding) : Prop where
  length : found.length = items.length
  own : ∀ i < items.length, ∃ p, (∀ q, indexAt items q = i ↔ q = p) ∧
    found[i]? = vectorOf? items[p]

/-- The items count under the positions of the texts, each under one of its own. -/
structure Numbered (items : List Value) : Prop where
  bounded : ∀ p, indexAt items p < items.length
  distinct : Function.Injective (indexAt items)

/-- Items that are numbered like the texts stand in the order of their numbers. -/
theorem Numbered.map_indexAt (h : Numbered items) {order : List (Fin items.length)}
    (horder : InOrder items order) : order.map (indexAt items) = List.range items.length := by
  have hperm : (order.map (indexAt items)).Perm (List.range items.length) := by
    have hnodup : order.Nodup := horder.perm.nodup_iff.mpr (List.nodup_finRange _)
    have hsub : order.map (indexAt items) ⊆ List.range items.length := by
      intro i mem
      obtain ⟨p, -, rfl⟩ := List.mem_map.mp mem
      exact List.mem_range.mpr (h.bounded p)
    apply (List.subperm_of_subset (hnodup.map h.distinct) hsub).perm_of_length_le
    rw [List.length_range, List.length_map, horder.length_eq]
  have hsorted : (order.map (indexAt items)).Pairwise (· ≤ ·) := by
    rw [List.pairwise_map]
    exact horder.pairwise.imp fun hlt => by omega
  exact hperm.eq_of_pairwise (fun _ _ _ _ => Nat.le_antisymm) hsorted List.pairwise_le_range

/-- The items that belong to the texts are as many as the texts, so there are no others. -/
theorem Assigned.numbered (h : Assigned items found) : Numbered items := by
  choose owner howner using fun i : Fin items.length => h.own i i.isLt
  have hindex (i : Fin items.length) : indexAt items (owner i) = i :=
    ((howner i).1 (owner i)).mpr rfl
  have hsurjective : Function.Surjective owner := by
    apply Finite.injective_iff_surjective.mp
    intro i j heq
    apply Fin.ext
    rw [← hindex i, ← hindex j, heq]
  constructor
  · intro p
    obtain ⟨i, rfl⟩ := hsurjective p
    rw [hindex]
    exact i.isLt
  · intro p q heq
    obtain ⟨i, rfl⟩ := hsurjective p
    exact (((howner i).1 q).mp (heq.symm.trans (hindex i))).symm

/-- Items that are numbered like the texts have their vectors at their numbers. -/
theorem Numbered.assigned (h : Numbered items) (hyields : Yields items found) :
    Assigned items found := by
  refine ⟨hyields.length_eq, fun i hi => ?_⟩
  obtain ⟨order, horder, hfound⟩ := hyields
  have hi' : i < order.length := by
    rw [horder.length_eq]
    exact hi
  have hplace : indexAt items order[i] = i := by
    have hget : (order.map (indexAt items))[i]? = some i := by
      rw [h.map_indexAt horder, List.getElem?_range hi]
    simpa [List.getElem?_map, hi'] using hget
  refine ⟨order[i], fun q => ⟨fun hq => h.distinct (hq.trans hplace.symm), ?_⟩, ?_⟩
  · rintro rfl
    exact hplace
  · have hget := congrArg (·[i]?) hfound
    simp only [List.getElem?_map, List.getElem?_eq_getElem hi', Option.map_some] at hget
    cases hv : found[i]? with
    | none => simp [hv] at hget
    | some v => simpa [hv] using hget.symm

/-- **When every text gets its own vector**: when the items are numbered like the texts. -/
theorem assigned_iff (h : Yields items found) : Assigned items found ↔ Numbered items :=
  ⟨Assigned.numbered, fun hnumbered => hnumbered.assigned h⟩

/-! ### Vectors over HTTP -/

/-- A service answers a request with a response that has these items. -/
def Delivers (send : Transport σ) (request : Request) (state : σ) (items : List Value) : Prop :=
  ∃ response after body, send request state = (.ok response, after) ∧
    response.isSuccess = true ∧ response.json = .ok body ∧ itemsOf? body = some items

/-- A response has one list of items. -/
theorem Delivers.eq {send : Transport σ} {request : Request} {state : σ} {other : List Value}
    (h : Delivers send request state items) (hother : Delivers send request state other) :
    items = other := by
  obtain ⟨response, _, body, hsend, -, hbody, hitems⟩ := h
  obtain ⟨response', _, body', hsend', -, hbody', hitems'⟩ := hother
  obtain rfl : response = response' :=
    Except.ok.inj (Prod.mk.inj (hsend.symm.trans hsend')).1
  obtain rfl : body = body' := Except.ok.inj (hbody.symm.trans hbody')
  exact Option.some.inj (hitems.symm.trans hitems')

theorem readVectors_eq_ok_iff {count : Nat} {response : Response} :
    readVectors count response = .ok found ↔ ∃ body, response.isSuccess = true ∧
      response.json = .ok body ∧ vectors body = .ok found ∧ found.length = count := by
  unfold readVectors
  by_cases hsuccess : response.isSuccess = true
  · rw [if_pos hsuccess]
    cases hbody : response.json with
    | error chain => simp
    | ok body =>
        simp only [Attempt.bind_eq_ok_iff]
        constructor
        · rintro ⟨other, hother, h⟩
          split at h
          · next hcount =>
              obtain rfl : other = found := Except.ok.inj h
              exact ⟨body, hsuccess, rfl, hother, hcount⟩
          · simp at h
        · rintro ⟨other, -, hsame, hfound, hcount⟩
          obtain rfl : body = other := Except.ok.inj hsame
          exact ⟨found, hfound, if_pos hcount⟩
  · rw [if_neg hsuccess]
    simp [hsuccess]

/-- An embedder over HTTP succeeds if it gets as many items as it sends texts, each with a
vector, and answers with these. -/
theorem embed_remote_eq_ok_iff {url key model : String} {send : Transport σ} {texts : List String}
    {state : σ} (htexts : texts ≠ []) :
    ((Embedder.remote url key model send).embed texts state).1 = .ok found ↔
      ∃ items, Delivers send (embeddingRequest url key model texts) state items ∧
        Yields items found ∧ items.length = texts.length := by
  unfold Embedder.remote Delivers
  simp only [if_neg htexts]
  cases hsend : send (embeddingRequest url key model texts) state with
  | mk answer after =>
      cases answer with
      | error chain => simp
      | ok response =>
          simp only [readVectors_eq_ok_iff, vectors_eq_ok_iff]
          constructor
          · rintro ⟨body, hsuccess, hbody, ⟨items, hitems, hyields⟩, hcount⟩
            exact ⟨items, ⟨response, after, body, rfl, hsuccess, hbody, hitems⟩, hyields,
              hyields.length_eq.symm.trans hcount⟩
          · rintro ⟨items, ⟨other, _, body, hother, hsuccess, hbody, hitems⟩, hyields, hcount⟩
            obtain rfl : response = other := Except.ok.inj (Prod.mk.inj hother).1
            exact ⟨body, hsuccess, hbody, ⟨items, hitems, hyields⟩,
              hyields.length_eq.trans hcount⟩

/-- **Which responses an embedder over HTTP accepts**: those with as many items as texts were
sent, each with a vector. All else is an error. The vectors are in the order of the indices,
and **every text gets its own vector** only where the items are numbered like the texts. -/
theorem embed_assigns_iff (url key model : String) (send : Transport σ) (texts : List String)
    (state : σ) (htexts : texts ≠ []) :
    ((∃ found, ((Embedder.remote url key model send).embed texts state).1 = .ok found) ↔
      ∃ items, Delivers send (embeddingRequest url key model texts) state items ∧
        items.length = texts.length ∧ ∀ item ∈ items, (vectorOf? item).isSome) ∧
    ∀ found, ((Embedder.remote url key model send).embed texts state).1 = .ok found →
      ∃ items, Delivers send (embeddingRequest url key model texts) state items ∧
        items.length = texts.length ∧ found.length = texts.length ∧ Yields items found ∧
        (Assigned items found ↔ Numbered items) := by
  constructor
  · simp only [embed_remote_eq_ok_iff htexts]
    constructor
    · rintro ⟨found, items, hdelivers, hyields, hcount⟩
      refine ⟨items, hdelivers, hcount, ?_⟩
      intro item mem
      obtain ⟨p, hp, rfl⟩ := List.getElem_of_mem mem
      exact exists_yields_iff.mp ⟨found, hyields⟩ ⟨p, hp⟩
    · rintro ⟨items, hdelivers, hcount, hall⟩
      obtain ⟨found, hyields⟩ := exists_yields_iff.mpr fun p => hall _ (List.getElem_mem p.isLt)
      exact ⟨found, items, hdelivers, hyields, hcount⟩
  · intro found hfound
    obtain ⟨items, hdelivers, hyields, hcount⟩ := (embed_remote_eq_ok_iff htexts).mp hfound
    exact ⟨items, hdelivers, hcount, hyields.length_eq.trans hcount, hyields, assigned_iff hyields⟩

/-! ### Samples -/

/-- An item with an index and a vector of one component. -/
def sampleItem (index component : Nat) : Value :=
  .object [("embedding", .array [.ofNat component]), ("index", .ofNat index)]

/-- A service that answers every request with this body. -/
def answering (text : String) : Transport Unit :=
  fun _ state => (.ok ⟨200, text⟩, state)

theorem delivers_answering {text : String} {request : Request}
    (h : Response.json ⟨200, text⟩ = .ok (.object [("data", .array items)])) :
    Delivers (answering text) request () items :=
  ⟨⟨200, text⟩, (), _, rfl, rfl, h, rfl⟩

/-- A response with the item for the second text first. -/
def swappedText : String :=
  "\x7b\"data\":[\x7b\"index\":1,\"embedding\":[2]\x7d,\x7b\"index\":0,\"embedding\":[1]\x7d]\x7d"

theorem embed_assigns_iff_swappedText :
    ["a", "b"] ≠ [] ∧ ∃ found,
      ((Embedder.remote "/e" "k" "m" (answering swappedText)).embed ["a", "b"] ()).1 = .ok found ∧
      Assigned [sampleItem 1 2, sampleItem 0 1] found := by
  have hdelivers : Delivers (answering swappedText) (embeddingRequest "/e" "k" "m" ["a", "b"]) ()
      [sampleItem 1 2, sampleItem 0 1] :=
    delivers_answering (by cbv)
  obtain ⟨haccepted, hassigned⟩ :=
    embed_assigns_iff "/e" "k" "m" (answering swappedText) ["a", "b"] () (by decide)
  obtain ⟨found, hfound⟩ := haccepted.mpr ⟨_, hdelivers, rfl, by simp [vectorOf?, sampleItem,
    Value.field?, Value.items?]⟩
  obtain ⟨items, hitems, -, -, -, hiff⟩ := hassigned found hfound
  obtain rfl := hdelivers.eq hitems
  exact ⟨by decide, found, hfound, hiff.mpr ⟨by decide +kernel, by decide +kernel⟩⟩

/-- A response in which both items name the index of the first text. -/
def repeatedText : String :=
  "\x7b\"data\":[\x7b\"index\":0,\"embedding\":[1]\x7d,\x7b\"index\":0,\"embedding\":[2]\x7d]\x7d"

/-- The response is accepted, and **the second text gets a vector** that is marked as that of
the first. -/
theorem embed_repeatedText : ∃ found,
    ((Embedder.remote "/e" "k" "m" (answering repeatedText)).embed ["a", "b"] ()).1 = .ok found ∧
    Delivers (answering repeatedText) (embeddingRequest "/e" "k" "m" ["a", "b"]) ()
      [sampleItem 0 1, sampleItem 0 2] ∧
    ¬ Assigned [sampleItem 0 1, sampleItem 0 2] found := by
  have hdelivers : Delivers (answering repeatedText) (embeddingRequest "/e" "k" "m" ["a", "b"]) ()
      [sampleItem 0 1, sampleItem 0 2] :=
    delivers_answering (by cbv)
  obtain ⟨found, hyields⟩ := exists_yields_iff.mpr
    (show ∀ p : Fin [sampleItem 0 1, sampleItem 0 2].length,
      (vectorOf? [sampleItem 0 1, sampleItem 0 2][p]).isSome by
        simp [Fin.forall_fin_two, vectorOf?, sampleItem, Value.field?, Value.items?])
  have htexts : ["a", "b"] ≠ [] := by decide
  refine ⟨found, (embed_remote_eq_ok_iff htexts).mpr ⟨_, hdelivers, hyields, rfl⟩, hdelivers, ?_⟩
  intro hassigned
  have hdistinct := ((assigned_iff hyields).mp hassigned).distinct
  have hsame : (0 : Fin 2) = 1 := hdistinct (by decide +kernel)
  exact absurd hsame (by decide)

end Workbench.Service
