/-
# Scores that are no numbers

A vector with an infinite component has a similarity that is no number. Such a score keeps its
place in the ranking and parts the chunks before it from those after it: each part is ranked,
but no chunk is moved to another part, so one that scores more than others may be left out.

* `HasRanking` — when the scores of chunks determine how these are ranked.
* `hidesNothing_iff_ranking` — what a search leaves out is the rest of the ranking.
* `hides_nothing_iff` — **when no search leaves out a chunk that scores more than a hit**.
* `hidden_partedChunks` — a search that does.
-/

import Workbench.Proofs.Index.Ranking

namespace Workbench.Index

open Workbench.Vector Workbench.Collection

variable {query : Embedding} {chunks : List StoredChunk} {k : Nat}

/-- How chunks are ranked is determined: there are few enough to put each in its place, or all
scores are numbers. -/
def HasRanking (query : Embedding) (chunks : List StoredChunk) : Prop :=
  chunks.length ≤ insertionLimit ∨ ∀ c ∈ chunks, (similarity query c).isNaN = false

/-- None of the chunks that a search leaves out scores more than one of its hits. -/
def HidesNothing (query : Embedding) (chunks : List StoredChunk) (k : Nat) : Prop :=
  ∃ left, (top query chunks k ++ left).Perm (chunks.map (hitFor query)) ∧
    ∀ a ∈ top query chunks k, ∀ b ∈ left, isLess a.score b.score = false

/-- A score that is no number stands between a chunk and a later one with a higher score. -/
def Hides (query : Embedding) (chunks : List StoredChunk) (i m j : Fin chunks.length) : Prop :=
  i < m ∧ m < j ∧ (scoreAt query chunks m).isNaN = true ∧
    isLess (scoreAt query chunks i) (scoreAt query chunks j) = true

/-- The hits of a search and the rest of the ranking are all chunks. -/
theorem top_append_perm : (top query chunks k ++
    ((ranking query chunks).drop k).map (hitAt query chunks)).Perm
      (chunks.map (hitFor query)) := by
  rw [top_eq, ← List.map_append, List.take_append_drop, ← map_hitAt_finRange]
  exact ranking_perm.map _

theorem perm_of_left_out {left : List Hit}
    (h : (top query chunks k ++ left).Perm (chunks.map (hitFor query))) :
    left.Perm (((ranking query chunks).drop k).map (hitAt query chunks)) :=
  (List.perm_append_left_iff _).mp (h.trans top_append_perm.symm)

/-- A search hides nothing if no position after its hits scores more than one of theirs. -/
theorem hidesNothing_iff_ranking : HidesNothing query chunks k ↔
    ∀ i ∈ (ranking query chunks).take k, ∀ j ∈ (ranking query chunks).drop k,
      isLess (scoreAt query chunks i) (scoreAt query chunks j) = false := by
  constructor
  · rintro ⟨left, hperm, hscores⟩ i hi j hj
    refine hscores (hitAt query chunks i) ?_ (hitAt query chunks j) ?_
    · rw [top_eq]
      exact List.mem_map_of_mem hi
    · exact (perm_of_left_out hperm).mem_iff.mpr (List.mem_map_of_mem hj)
  · intro hscores
    refine ⟨_, top_append_perm, ?_⟩
    intro a ha b hb
    rw [top_eq] at ha
    obtain ⟨i, hi, rfl⟩ := List.mem_map.mp ha
    obtain ⟨j, hj, rfl⟩ := List.mem_map.mp hb
    exact hscores i hi j hj

/-- A ranking is by score as far as no higher score is parted from a smaller one before it. -/
theorem not_less_of_precedes {i j : Fin chunks.length}
    (h : Precedes (scoreAt query chunks) i j)
    (hfree : ∀ m, ¬ Hides query chunks i m j) :
    isLess (scoreAt query chunks i) (scoreAt query chunks j) = false := by
  apply Bool.eq_false_iff.mpr
  intro hless
  obtain ⟨hi, hj, hlt⟩ := isLess_iff.mp hless
  by_cases hparted : Parted (scoreAt query chunks) i j
  · have hij := h.1 hparted
    obtain ⟨m, hm, hnan⟩ := hparted
    rw [Set.uIcc_of_le hij.le] at hm
    have him : i ≠ m := by
      rintro rfl
      exact Bool.false_ne_true (hi.symm.trans hnan)
    have hmj : m ≠ j := by
      rintro rfl
      exact Bool.false_ne_true (hj.symm.trans hnan)
    exact hfree m ⟨lt_of_le_of_ne hm.1 him, lt_of_le_of_ne hm.2 hmj, hnan, hless⟩
  · rcases h.2 hparted with hgt | ⟨heq, -⟩
    · exact absurd hlt hgt.not_gt
    · exact absurd hlt heq.not_lt

/-- **When no search leaves out a chunk that scores more than a hit**: no score that is no
number may stand between a chunk and a later one with a higher score. This says nothing of
chunks of which the ranking is not determined. -/
theorem hides_nothing_iff (query : Embedding) (chunks : List StoredChunk)
    (_ : HasRanking query chunks) :
    (∀ k, HidesNothing query chunks k) ↔ ∀ i m j, ¬ Hides query chunks i m j := by
  constructor
  · rintro hnothing i m j ⟨him, hmj, hnan, hless⟩
    have hij : i < j := him.trans hmj
    obtain ⟨before, after, hsplit⟩ :=
      List.append_of_mem (ranking_perm.mem_iff.mpr (List.mem_finRange i) : i ∈ ranking query chunks)
    have hall : j ∈ before ++ i :: after :=
      hsplit ▸ ranking_perm.mem_iff.mpr (List.mem_finRange j)
    -- The later chunk is ranked after the one that it is parted from.
    have hafter : j ∈ after := by
      rcases List.mem_append.mp hall with hbefore | hrest
      · have horder := (List.pairwise_append.mp (hsplit ▸ pairwise_ranking)).2.2 j hbefore i (by simp)
        have hparted : Parted (scoreAt query chunks) j i :=
          ⟨m, by rw [Set.uIcc_of_ge hij.le]; exact ⟨him.le, hmj.le⟩, hnan⟩
        exact absurd (horder.1 hparted) hij.not_gt
      · exact (List.mem_cons.mp hrest).resolve_left hij.ne'
    have hscores := hidesNothing_iff_ranking.mp (hnothing (before.length + 1)) i
      (by simp [hsplit, List.take_length_add_append]) j (by simpa [hsplit] using hafter)
    exact Bool.false_ne_true (hscores.symm.trans hless)
  · intro hfree k
    apply hidesNothing_iff_ranking.mpr
    intro i hi j hj
    have horder := pairwise_ranking.rel_of_mem_take_of_mem_drop hi hj
    exact not_less_of_precedes horder fun m => hfree i m j

/-- A chunk with an infinite vector, stored between one that has nothing in common with the
query and one that is equal to it. -/
def partedChunks : List StoredChunk :=
  [⟨"a.py", none, .file, 0, 0, "x = 1\n", [.zero, .one]⟩,
    ⟨"b.py", none, .file, 0, 0, "y = 1\n", [⟨0x7F800000⟩, .zero]⟩,
    ⟨"c.py", none, .file, 0, 0, "z = 1\n", [.one, .zero]⟩]

/-- The search for one chunk returns the one that has nothing in common with the query. -/
theorem hidden_partedChunks : ¬ HidesNothing [.one, .zero] partedChunks 1 := by
  rw [hidesNothing_iff_ranking]
  decide +kernel

/-- The infinite vector hides a chunk from that search, and chunks that all have scores are
hidden from none. -/
theorem hides_nothing_iff_partedChunks :
    (¬ ∀ k, HidesNothing [.one, .zero] partedChunks k) ∧
      ∀ k, HidesNothing tiedQuery tiedChunks k := by
  have hparted := hides_nothing_iff [.one, .zero] partedChunks (.inl (by decide))
  have htied := hides_nothing_iff tiedQuery tiedChunks (.inr (by decide +kernel))
  constructor
  · rw [hparted]
    intro hfree
    refine hfree ⟨0, by decide⟩ ⟨1, by decide⟩ ⟨2, by decide⟩ ?_
    unfold Hides
    decide +kernel
  · rw [htied]
    unfold Hides
    decide +kernel

end Workbench.Index
