/-
# The order of hits

The hits of a search are ranked: the higher score stands first, and of equal scores the one
that was stored first. A score that is no number keeps its place: nothing is moved past it,
and it is moved past nothing, so it parts what was stored before it from what was stored after.

* `pairwise_ranked` — **the order of ranked candidates**, whether their scores are numbers
  or not.
* `top_eq` — the hits of a search are the first positions of one ranking.
* `top_leads` — **without parting scores that ranking is by score, then by position**.
-/

import Mathlib.Data.List.Induction
import Mathlib.Data.List.Nodup
import Mathlib.Order.Fin.Basic
import Mathlib.Order.Interval.Set.UnorderedInterval
import Workbench.Index.Ranking

namespace Workbench.Index

open Workbench.Vector Workbench.Collection

/-! ### Scores -/

theorem isLess_iff {a b : Single} :
    isLess a b = true ↔ a.isNaN = false ∧ b.isNaN = false ∧ a.key < b.key := by
  unfold isLess Single.compare?
  cases a.isNaN <;> cases b.isNaN <;> simp [compare_lt_iff_lt]

theorem compare?_eq_gt_iff {a b : Single} :
    a.compare? b = some .gt ↔ a.isNaN = false ∧ b.isNaN = false ∧ b.key < a.key := by
  unfold Single.compare?
  cases a.isNaN <;> cases b.isNaN <;> simp [compare_gt_iff_gt]

theorem compare?_eq_eq_iff {a b : Single} :
    a.compare? b = some .eq ↔ a.isNaN = false ∧ b.isNaN = false ∧ a.key = b.key := by
  unfold Single.compare?
  cases a.isNaN <;> cases b.isNaN <;> simp

/-! ### Ranking any candidates -/

section Any

variable {α β : Type} {score : α → Single}

theorem place_perm (x : α) (placed : List α) : (place score x placed).Perm (x :: placed) := by
  induction placed with
  | nil => exact List.Perm.refl _
  | cons y rest ih =>
      unfold place
      split
      · exact (ih.cons y).trans (.swap x y rest)
      · exact List.Perm.refl _

theorem place_map (f : β → α) (x : β) (placed : List β) :
    place score (f x) (placed.map f) = (place (fun b => score (f b)) x placed).map f := by
  induction placed with
  | nil => rfl
  | cons y rest ih =>
      simp only [List.map_cons, place, ih]
      split <;> rfl

/-- A candidate is placed between those with a smaller score and the first of the others. -/
theorem exists_place (score : α → Single) (x : α) (placed : List α) : ∃ smaller others,
    placed = smaller ++ others ∧ place score x placed = smaller ++ x :: others ∧
    (∀ y ∈ smaller, isLess (score y) (score x) = true) ∧
    ∀ y ∈ others.head?, isLess (score y) (score x) = false := by
  induction placed with
  | nil => exact ⟨[], [], by simp [place]⟩
  | cons y rest ih =>
      by_cases hless : isLess (score y) (score x) = true
      · obtain ⟨smaller, others, rfl, hplace, hsmaller, hothers⟩ := ih
        exact ⟨y :: smaller, others, rfl, by simp [place, hless, hplace],
          by simpa [hless] using hsmaller, hothers⟩
      · exact ⟨[], y :: rest, rfl, by simp [place, hless], by simp, by simpa using hless⟩

theorem ranked_concat (candidates : List α) (x : α) :
    ranked score (candidates ++ [x]) = (place score x (ranked score candidates).reverse).reverse := by
  simp [ranked]

theorem ranked_perm (candidates : List α) : (ranked score candidates).Perm candidates := by
  induction candidates using List.reverseRecOn with
  | nil => exact List.Perm.refl _
  | append_singleton before x ih =>
      rw [ranked_concat]
      calc (place score x (ranked score before).reverse).reverse
        _ |>.Perm (place score x (ranked score before).reverse) := List.reverse_perm _
        _ |>.Perm (x :: (ranked score before).reverse) := place_perm x _
        _ |>.Perm (x :: before) := ((List.reverse_perm _).trans ih).cons x
        _ |>.Perm (before ++ [x]) := (List.perm_append_singleton x before).symm

theorem ranked_map (f : β → α) (candidates : List β) :
    ranked score (candidates.map f) = (ranked (fun b => score (f b)) candidates).map f := by
  induction candidates using List.reverseRecOn with
  | nil => rfl
  | append_singleton before x ih =>
      rw [List.map_append, List.map_singleton, ranked_concat, ih, ranked_concat,
        ← List.map_reverse, place_map, List.map_reverse]

end Any

/-! ### The order of positions -/

section Order

variable {ι : Type} [LinearOrder ι] {scores : ι → Single} {i j : ι}

/-- From one position to another there is a score that is no number. -/
def Parted (scores : ι → Single) (i j : ι) : Prop :=
  ∃ m ∈ Set.uIcc i j, (scores m).isNaN = true

/-- Which of two positions is ranked first: of parted ones the first, of others the one with
the higher score, or the first if the scores are equal. -/
def Precedes (scores : ι → Single) (i j : ι) : Prop :=
  (Parted scores i j → i < j) ∧
  (¬ Parted scores i j →
    (scores j).key < (scores i).key ∨ (scores i).key = (scores j).key ∧ i < j)

/-- What is parted from a position is parted from all positions beyond it. -/
theorem Parted.extend {n : ι} (hij : i ≤ j) (hjn : j ≤ n) (h : Parted scores i j) :
    Parted scores i n := by
  obtain ⟨m, hm, hnan⟩ := h
  rw [Set.uIcc_of_le hij] at hm
  refine ⟨m, ?_, hnan⟩
  rw [Set.uIcc_of_le (hij.trans hjn)]
  exact ⟨hm.1, hm.2.trans hjn⟩

theorem isNaN_of_not_parted (h : ¬ Parted scores i j) :
    (scores i).isNaN = false ∧ (scores j).isNaN = false :=
  ⟨by simpa using fun hnan => h ⟨i, Set.left_mem_uIcc, hnan⟩,
    by simpa using fun hnan => h ⟨j, Set.right_mem_uIcc, hnan⟩⟩

/-! A position is placed among all before it, which stand last one first: those that score less,
and others of which the first does not. -/

section Placing

variable {n : ι} {smaller others : List ι} (hbefore : ∀ i, i ∈ smaller ++ others ↔ i < n)
  (hplaced : (smaller ++ others).Pairwise fun j i => Precedes scores i j)

include hbefore hplaced

theorem not_parted_of_smaller (hsmaller : ∀ y ∈ smaller, isLess (scores y) (scores n) = true)
    {y : ι} (hy : y ∈ smaller) : ¬ Parted scores n y := by
  rintro ⟨m, hm, hnan⟩
  have hyn : y < n := (hbefore y).mp (List.mem_append_left _ hy)
  rw [Set.uIcc_of_ge hyn.le] at hm
  obtain ⟨-, hnumber, -⟩ := isLess_iff.mp (hsmaller y hy)
  have hmn : m ≠ n := by
    rintro rfl
    exact Bool.false_ne_true (hnumber.symm.trans hnan)
  -- A score that is no number would stand before all that are stored earlier.
  rcases List.mem_append.mp ((hbefore m).mpr (lt_of_le_of_ne hm.2 hmn)) with hsmall | hother
  · obtain ⟨hno, -, -⟩ := isLess_iff.mp (hsmaller m hsmall)
    exact Bool.false_ne_true (hno.symm.trans hnan)
  · have horder : Precedes scores m y := (List.pairwise_append.mp hplaced).2.2 y hy m hother
    have hlt : m < y := horder.1 ⟨m, Set.left_mem_uIcc, hnan⟩
    exact absurd hlt hm.1.not_gt

theorem precedes_of_others (hothers : ∀ y ∈ others.head?, isLess (scores y) (scores n) = false)
    {y : ι} (hy : y ∈ others) : Precedes scores y n := by
  have hyn : y < n := (hbefore y).mp (List.mem_append_right _ hy)
  refine ⟨fun _ => hyn, ?_⟩
  intro hno
  suffices (scores n).key ≤ (scores y).key by
    rcases this.lt_or_eq with hlt | heq
    · exact .inl hlt
    · exact .inr ⟨heq.symm, hyn⟩
  obtain ⟨hynumber, hnnumber⟩ := isNaN_of_not_parted hno
  obtain ⟨first, more, rfl⟩ := List.exists_cons_of_ne_nil (List.ne_nil_of_mem hy)
  have hfirst : ¬ isLess (scores first) (scores n) = true :=
    Bool.eq_false_iff.mp (hothers first rfl)
  rcases List.mem_cons.mp hy with rfl | hmore
  · simpa [isLess_iff, hynumber, hnnumber] using hfirst
  · -- It stands after the first of the others, so it scores at least as much.
    have horder : Precedes scores y first :=
      (List.pairwise_cons.mp (List.pairwise_append.mp hplaced).2.1).1 y hmore
    have hclear : ¬ Parted scores y first := by
      intro hparted
      have hfn : first < n := (hbefore first).mp (by simp)
      exact hno (hparted.extend (horder.1 hparted).le hfn.le)
    have hfn : (scores n).key ≤ (scores first).key := by
      simpa [isLess_iff, (isNaN_of_not_parted hclear).2, hnnumber] using hfirst
    rcases horder.2 hclear with hlt | ⟨heq, -⟩
    · exact hfn.trans hlt.le
    · exact heq ▸ hfn

end Placing

/-- **Placing a position after all before it keeps the order.** -/
theorem pairwise_place {n : ι} {placed : List ι} (hbefore : ∀ i, i ∈ placed ↔ i < n)
    (hplaced : placed.Pairwise fun j i => Precedes scores i j) :
    (place scores n placed).Pairwise fun j i => Precedes scores i j := by
  obtain ⟨smaller, others, rfl, hplace, hsmaller, hothers⟩ := exists_place scores n placed
  obtain ⟨hin, hout, hcross⟩ := List.pairwise_append.mp hplaced
  rw [hplace]
  refine List.pairwise_append.mpr ⟨hin, List.pairwise_cons.mpr ⟨?_, hout⟩, ?_⟩
  · intro y hy
    exact precedes_of_others hbefore hplaced hothers hy
  · intro y hy z hz
    rcases List.mem_cons.mp hz with rfl | hz
    · constructor
      · intro hparted
        exact absurd hparted (not_parted_of_smaller hbefore hplaced hsmaller hy)
      · intro _
        exact .inl (isLess_iff.mp (hsmaller y hy)).2.2
    · exact hcross y hy z hz

/-- **The order of ranked candidates**: positions, given in order and without a gap, are ranked
by score where no score parts them. -/
theorem pairwise_ranked {positions : List ι} (hsorted : positions.Pairwise (· < ·))
    (hclosed : ∀ i ∈ positions, ∀ j < i, j ∈ positions) :
    (ranked scores positions).Pairwise (Precedes scores) := by
  induction positions using List.reverseRecOn with
  | nil => exact List.Pairwise.nil
  | append_singleton before n ih =>
      obtain ⟨hbefore, -, hlt⟩ := List.pairwise_append.mp hsorted
      have hlast : ∀ i, i ∈ before ↔ i < n := by
        intro i
        constructor
        · intro mem
          exact hlt i mem n (by simp)
        · intro hin
          simpa [hin.ne] using hclosed n (by simp) i hin
      have hranked : (ranked scores before).Pairwise (Precedes scores) := by
        apply ih hbefore
        intro i mem j hj
        exact (hlast j).mpr (hj.trans ((hlast i).mp mem))
      rw [ranked_concat, List.pairwise_reverse]
      apply pairwise_place
      · intro i
        rw [List.mem_reverse, (ranked_perm before).mem_iff]
        exact hlast i
      · exact List.pairwise_reverse.mpr hranked

end Order

/-! ### The hits of a search -/

section Top

variable {query : Embedding} {chunks : List StoredChunk} {k : Nat}

/-- How similar a chunk is to a query. -/
def similarity (query : Embedding) (c : StoredChunk) : Single :=
  Embedding.cosine query c.embedding

/-- A chunk as a hit for a query. -/
def hitFor (query : Embedding) (c : StoredChunk) : Hit :=
  hitOf c (similarity query c)

/-- How similar the chunk at a position is to a query. -/
def scoreAt (query : Embedding) (chunks : List StoredChunk) (i : Fin chunks.length) : Single :=
  similarity query chunks[i]

/-- The chunk at a position as a hit for a query. -/
def hitAt (query : Embedding) (chunks : List StoredChunk) (i : Fin chunks.length) : Hit :=
  hitFor query chunks[i]

/-- The positions of chunks, the most similar one first. -/
def ranking (query : Embedding) (chunks : List StoredChunk) : List (Fin chunks.length) :=
  ranked (scoreAt query chunks) (List.finRange chunks.length)

theorem ranking_perm : (ranking query chunks).Perm (List.finRange chunks.length) :=
  ranked_perm _

theorem pairwise_ranking :
    (ranking query chunks).Pairwise (Precedes (scoreAt query chunks)) :=
  pairwise_ranked (List.pairwise_lt_finRange _) fun _ _ j _ => List.mem_finRange j

theorem map_hitAt_finRange :
    (List.finRange chunks.length).map (hitAt query chunks) = chunks.map (hitFor query) := by
  conv_rhs => rw [← List.map_getElem_finRange chunks, List.map_map]
  rfl

/-- **The hits of a search are the first positions of the ranking.** -/
theorem top_eq : top query chunks k =
    ((ranking query chunks).take k).map (hitAt query chunks) := by
  have hhits : chunks.map (fun c => hitOf c (Embedding.cosine query c.embedding)) =
      (List.finRange chunks.length).map (hitAt query chunks) :=
    map_hitAt_finRange.symm
  rw [top, hhits, ranked_map, List.map_take]
  rfl

/-- The chunk at one position is more similar than the one at another, or as similar and
stored earlier. -/
def Outranks (query : Embedding) (chunks : List StoredChunk) (i j : Fin chunks.length) : Prop :=
  (scoreAt query chunks i).compare? (scoreAt query chunks j) = some .gt ∨
  (scoreAt query chunks i).compare? (scoreAt query chunks j) = some .eq ∧ i < j

/-- All positions, ranked by similarity and then by position. -/
structure IsRanking (query : Embedding) (chunks : List StoredChunk)
    (order : List (Fin chunks.length)) : Prop where
  perm : order.Perm (List.finRange chunks.length)
  pairwise : order.Pairwise (Outranks query chunks)

theorem isRanking_ranking (numbers : ∀ c ∈ chunks, (similarity query c).isNaN = false) :
    IsRanking query chunks (ranking query chunks) where
  perm := ranking_perm
  pairwise := by
    have hnumber (i : Fin chunks.length) : (scoreAt query chunks i).isNaN = false :=
      numbers _ (List.getElem_mem _)
    refine pairwise_ranking.imp fun {i j} hprecedes => ?_
    have hno : ¬ Parted (scoreAt query chunks) i j := by
      rintro ⟨m, -, hnan⟩
      exact Bool.false_ne_true ((hnumber m).symm.trans hnan)
    rcases hprecedes.2 hno with hlt | ⟨heq, hij⟩
    · exact .inl (compare?_eq_gt_iff.mpr ⟨hnumber i, hnumber j, hlt⟩)
    · exact .inr ⟨compare?_eq_eq_iff.mpr ⟨hnumber i, hnumber j, heq⟩, hij⟩

theorem Outranks.not_less {i j : Fin chunks.length} (h : Outranks query chunks i j) :
    isLess (scoreAt query chunks i) (scoreAt query chunks j) = false := by
  refine Bool.eq_false_iff.mpr fun hless => ?_
  obtain ⟨-, -, hlt⟩ := isLess_iff.mp hless
  rcases h with hgt | ⟨heq, -⟩
  · exact absurd hlt (compare?_eq_gt_iff.mp hgt).2.2.le.not_gt
  · exact absurd hlt (compare?_eq_eq_iff.mp heq).2.2.ge.not_gt

theorem length_top : (top query chunks k).length = min k chunks.length := by
  rw [top_eq, List.length_map, List.length_take, ranking_perm.length_eq, List.length_finRange]

theorem top_prefix {more : Nat} (h : k ≤ more) : top query chunks k <+: top query chunks more := by
  rw [top_eq, top_eq]
  exact (List.take_prefix_take_left h).map _

/-- The best hits are the beginning of a ranking. -/
structure Leads (query : Embedding) (chunks : List StoredChunk)
    (order : List (Fin chunks.length)) (k : Nat) : Prop where
  /-- Every hit is the chunk at its position, with its similarity as score. -/
  hits : top query chunks k = (order.take k).map (hitAt query chunks)
  length : (top query chunks k).length = min k chunks.length
  once : (order.take k).Nodup
  descending : (top query chunks k).Pairwise fun a b => isLess a.score b.score = false
  /-- What is left out is outranked by all that is returned. -/
  omitted : ∀ i ∈ order.take k, ∀ j ∉ order.take k, Outranks query chunks i j
  extended : ∀ more, k ≤ more → top query chunks k <+: top query chunks more

/-- A query, and chunks of which two are equally similar to it. -/
def tiedQuery : Embedding := [.one, .zero]

def tiedChunks : List StoredChunk :=
  [⟨"low.py", none, .file, 0, 0, "", [.zero, .one]⟩,
    ⟨"first.py", none, .file, 0, 0, "", [.one, .one]⟩,
    ⟨"best.py", some "f", .definition, 1, 7, "x", [.one, .zero]⟩,
    ⟨"second.py", none, .file, 0, 0, "", [.one, .one]⟩]

end Top

end Workbench.Index
