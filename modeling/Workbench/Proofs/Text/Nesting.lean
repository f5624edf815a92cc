/-
# Chunks inside chunks

A chunk starts after the one before it and never ends before it, but it can end where that
one does, and then it lies inside it and adds nothing. `Chunk.Stalls` says when: beyond the end
of the one before it, there is room for part of a long line only, and a chunk that holds a
newline goes back to the last one. So a chunk lies inside another exactly when all chunks after
that one, up to it, stall.

* `Chunk.Turn.stop_eq_iff` — **when a chunk adds nothing** to the one before it.
* `Chunk.inside_iff_isChain` — which chunks lie inside another, when no end goes back.
* `chunks_inside_iff` — **which chunks of a text lie inside another**.
-/

import Workbench.Proofs.Text.Shaping

namespace Workbench.Text

namespace Chunk

variable {s before step ahead beyond later : List Char} {size overlap : Nat}

/-- A chunk lies entirely inside another. -/
def Inside (b a : Chunk) : Prop :=
  a.offset ≤ b.offset ∧ b.stop ≤ a.stop

instance (b a : Chunk) : Decidable (Inside b a) :=
  inferInstanceAs (Decidable (_ ∧ _))

/-- A chunk gets no further than the one before it: it starts before the end of that, its room
does not reach the end of the text, and beyond the end of the one before it the room holds no
newline, and nothing at all unless the one before it ends with a newline. -/
structure Stalls (s : List Char) (size : Nat) (a b : Chunk) : Prop where
  early : b.offset < a.stop
  short : roomStop s size b.offset < byteLength s
  lineless : ∃ beyond, slice? s a.stop (roomStop s size b.offset) = some beyond ∧
    '\n' ∉ beyond ∧ (beyond = [] ∨ a.text.toList.getLast? = some '\n')

/-! ### Neighbours that end at one place -/

theorem gain_eq_nil_iff (hlater : later ≠ []) :
    gain ahead beyond later = [] ↔
      beyond ≠ later ∧ '\n' ∉ beyond ∧ (beyond = [] ∨ ahead.getLast? = some '\n') := by
  unfold gain
  split
  · next heq => simp [heq, hlater]
  · next hne =>
      cases hlast : throughLastNewline beyond with
      | some line =>
          have hmem : '\n' ∈ beyond := by
            by_contra hno
            rw [throughLastNewline_eq_none_iff.mpr hno] at hlast
            cases hlast
          simp [throughLastNewline_ne_nil hlast, hmem]
      | none =>
          have hno := throughLastNewline_eq_none_iff.mp hlast
          by_cases hend : ahead.getLast? = some '\n'
          · simp [hne, hno, hend]
          · simp [hne, hno, hend]

/-- The room of the next chunk, by positions. -/
theorem Turn.roomStop_eq (h : Turn s size overlap before step ahead later)
    (hroom : room size (ahead ++ later) = ahead ++ beyond) :
    roomStop s size (byteLength (before ++ step)) =
      byteLength (before ++ (step ++ ahead)) + byteLength beyond := by
  have hrest : ahead ++ later ≠ [] := List.append_ne_nil_of_right_ne_nil ahead h.more
  have hstop := roomStop_append (before ++ step) hrest size
  rw [List.append_assoc, h.whole, hroom] at hstop
  rw [hstop]
  simp only [byteLength_append, Nat.add_assoc]

theorem prefix_of_room (hroom : room size (ahead ++ later) = ahead ++ beyond) :
    beyond <+: later := by
  have hprefix := prefix_room size (ahead ++ later)
  rw [hroom] at hprefix
  exact (List.prefix_append_right_inj ahead).mp hprefix

/-- What the room of the next chunk holds beyond the end of this one, by positions. -/
theorem Turn.slice?_beyond (h : Turn s size overlap before step ahead later)
    (hroom : room size (ahead ++ later) = ahead ++ beyond) :
    slice? s (byteLength (before ++ (step ++ ahead)))
      (roomStop s size (byteLength (before ++ step))) = some beyond := by
  obtain ⟨left, hleft⟩ := prefix_of_room hroom
  have hwhole : before ++ (step ++ ahead) ++ (beyond ++ left) = s := by
    rw [← h.whole, hleft]
    simp only [List.append_assoc]
  have hslice := slice?_append (before ++ (step ++ ahead)) beyond left
  rwa [List.append_assoc, hwhole, ← h.roomStop_eq hroom] at hslice

/-- The room of the next chunk does not reach the end of the text if there is more than it
holds. -/
theorem Turn.roomStop_lt_iff (h : Turn s size overlap before step ahead later)
    (hroom : room size (ahead ++ later) = ahead ++ beyond) :
    roomStop s size (byteLength (before ++ step)) < byteLength s ↔ beyond ≠ later := by
  obtain ⟨left, hleft⟩ := prefix_of_room hroom
  rw [h.roomStop_eq hroom, ← h.whole, ← hleft]
  simp only [byteLength_append]
  constructor
  · intro hlt heq
    obtain rfl := List.append_right_eq_self.mp heq.symm
    rw [byteLength_nil] at hlt
    omega
  · intro hne
    have hpos : 0 < byteLength left := by
      refine byteLength_pos ?_
      rintro rfl
      exact hne (List.append_nil _).symm
    omega

theorem Turn.stop_eq (h : Turn s size overlap before step ahead later) (index : Nat) :
    (cut size index before (step ++ (ahead ++ later))).stop =
      byteLength (before ++ (step ++ ahead)) := by
  rw [stop_cut, h.chunk, byteLength_append before]

/-- The next chunk adds what it gains from its room, which is nothing where both have one end. -/
theorem Turn.stop_eq_iff_gain (h : Turn s size overlap before step ahead later)
    (hahead : ahead ≠ []) (hroom : room size (ahead ++ later) = ahead ++ beyond) (index : Nat) :
    (cut size index before (step ++ (ahead ++ later))).stop =
        (cut size (index + 1) (before ++ step) (ahead ++ later)).stop ↔
      gain ahead beyond later = [] := by
  rw [h.stop_eq, stop_cut, h.body_eq hahead hroom, ← byteLength_eq_zero]
  simp only [byteLength_append]
  omega

/-- **When a chunk adds nothing** to the one before it. -/
theorem Turn.stop_eq_iff (h : Turn s size overlap before step ahead later) (index : Nat) :
    (cut size index before (step ++ (ahead ++ later))).stop =
        (cut size (index + 1) (before ++ step) (ahead ++ later)).stop ↔
      Stalls s size (cut size index before (step ++ (ahead ++ later)))
        (cut size (index + 1) (before ++ step) (ahead ++ later)) := by
  by_cases hahead : ahead = []
  · -- The next chunk starts where this one ends, so it adds something.
    subst hahead
    have hstop := h.stop_eq index
    have hnext := stop_cut size (index + 1) (before ++ step) ([] ++ later)
    have hpos := byteLength_pos (body_ne_nil size (show [] ++ later ≠ [] from h.more))
    rw [List.append_nil] at hstop
    constructor
    · intro heq
      omega
    · intro hstalls
      have hearly := hstalls.early
      rw [hstop] at hearly
      exact absurd hearly (Nat.lt_irrefl _)
  · obtain ⟨beyond, hroom⟩ := h.exists_beyond
    have hslice := h.slice?_beyond hroom
    have hlast : (step ++ ahead).getLast? = ahead.getLast? :=
      List.getLast?_append_of_ne_nil step hahead
    rw [h.stop_eq_iff_gain hahead hroom index, gain_eq_nil_iff h.more]
    constructor
    · rintro ⟨hne, hline, hends⟩
      constructor
      · have hpos := byteLength_pos hahead
        rw [h.stop_eq]
        simp only [cut, byteLength_append]
        omega
      · exact (h.roomStop_lt_iff hroom).mpr hne
      · refine ⟨beyond, ?_, hline, ?_⟩
        · rw [h.stop_eq]
          exact hslice
        · simpa only [cut, String.toList_ofList, h.chunk, hlast] using hends
    · rintro ⟨-, hroomy, other, hother, hline, hends⟩
      rw [h.stop_eq] at hother
      obtain rfl : other = beyond := Option.some.inj (hother.symm.trans hslice)
      refine ⟨(h.roomStop_lt_iff hroom).mp hroomy, hline, ?_⟩
      simpa only [cut, String.toList_ofList, h.chunk, hlast] using hends

/-! ### Any two chunks -/

section Sequence

variable {R : Chunk → Chunk → Prop} {cs : List Chunk}
  (hchain : cs.IsChain fun a b => a.offset < b.offset ∧ a.stop ≤ b.stop ∧ (a.stop = b.stop ↔ R a b))

include hchain

theorem offset_lt {i j : Nat} (hij : i < j) (hj : j < cs.length) :
    cs[i].offset < cs[j].offset := by
  have : Trans (fun a b : Chunk => a.offset < b.offset) (fun a b : Chunk => a.offset < b.offset)
      (fun a b : Chunk => a.offset < b.offset) := ⟨fun hab hbc => Nat.lt_trans hab hbc⟩
  have hpair := List.isChain_iff_pairwise.mp (hchain.imp fun _ _ h => h.1)
  exact List.pairwise_iff_getElem.mp hpair i j _ hj hij

theorem stop_le {i j : Nat} (hij : i ≤ j) (hj : j < cs.length) : cs[i].stop ≤ cs[j].stop := by
  have : Trans (fun a b : Chunk => a.stop ≤ b.stop) (fun a b : Chunk => a.stop ≤ b.stop)
      (fun a b : Chunk => a.stop ≤ b.stop) := ⟨fun hab hbc => Nat.le_trans hab hbc⟩
  have hpair := List.isChain_iff_pairwise.mp (hchain.imp fun _ _ h => h.2.1)
  rcases Nat.eq_or_lt_of_le hij with rfl | hlt
  · exact Nat.le_refl _
  · exact List.pairwise_iff_getElem.mp hpair i j _ hj hlt

/-- **Which chunks lie inside another**, where starts go on and no end goes back: those that
end where it does, and so do all between them. -/
theorem inside_iff_isChain (i j : Fin cs.length) :
    Inside cs[j] cs[i] ↔ i ≤ j ∧ ((cs.take (j + 1)).drop i).IsChain R := by
  obtain ⟨i, hi⟩ := i
  obtain ⟨j, hj⟩ := j
  have hadjacent := List.isChain_iff_getElem.mp hchain
  simp only [Fin.getElem_fin, Fin.mk_le_mk]
  constructor
  · rintro ⟨hstart, hstop⟩
    have hij : i ≤ j := by
      by_contra hji
      have hlt := offset_lt hchain (Nat.lt_of_not_le hji) hi
      omega
    refine ⟨hij, List.isChain_iff_getElem.mpr ?_⟩
    intro k hk
    rw [List.length_drop, List.length_take] at hk
    have hfirst := stop_le hchain (Nat.le_add_right i k) (by omega)
    have hlast := stop_le hchain (show i + (k + 1) ≤ j by omega) hj
    have hboth := hadjacent (i + k) (by omega)
    simp only [List.getElem_drop, List.getElem_take]
    refine hboth.2.2.mp (Nat.le_antisymm hboth.2.1 ?_)
    exact Nat.le_trans hlast (Nat.le_trans hstop hfirst)
  · rintro ⟨hij, hstalls⟩
    have hsame (d : Nat) (hd : i + d ≤ j) : cs[i + d].stop = cs[i].stop := by
      induction d with
      | zero => rfl
      | succ d ih =>
          have hR := List.isChain_iff_getElem.mp hstalls d
            (by rw [List.length_drop, List.length_take]; omega)
          simp only [List.getElem_drop, List.getElem_take] at hR
          have hboth := hadjacent (i + d) (by omega)
          exact (hboth.2.2.mpr hR).symm.trans (ih (by omega))
    obtain ⟨d, rfl⟩ := Nat.exists_eq_add_of_le hij
    constructor
    · rcases Nat.eq_zero_or_pos d with rfl | hd
      · exact Nat.le_refl _
      · exact Nat.le_of_lt (offset_lt hchain (Nat.lt_add_of_pos_right hd) hj)
    · exact Nat.le_of_eq (hsame d (Nat.le_refl _))

end Sequence

end Chunk

/-- **Which chunks of a text lie inside another.** Starts go on and ends never go back; a chunk
ends where the one before it does exactly when it stalls, and it lies inside another exactly
when it comes later and all chunks after that one, up to it, stall. -/
theorem chunks_inside_iff (text : String) (size overlap : Nat) :
    (chunks text size overlap).IsChain (fun a b =>
      a.offset < b.offset ∧ a.stop ≤ b.stop ∧
        (a.stop = b.stop ↔ Chunk.Stalls text.toList (max size 1) a b)) ∧
    ∀ i j : Fin (chunks text size overlap).length,
      Chunk.Inside (chunks text size overlap)[j] (chunks text size overlap)[i] ↔
        i ≤ j ∧ (((chunks text size overlap).take (j + 1)).drop i).IsChain
          (Chunk.Stalls text.toList (max size 1)) := by
  have hchain : (chunks text size overlap).IsChain (fun a b =>
      a.offset < b.offset ∧ a.stop ≤ b.stop ∧
        (a.stop = b.stop ↔ Chunk.Stalls text.toList (max size 1) a b)) := by
    refine Chunk.isChain_chunksFrom (s := text.toList) ?_ 0 [] text.toList rfl
    intro index before step ahead later turn
    have hfollows := turn.follows index
    exact ⟨hfollows.later, hfollows.onward, turn.stop_eq_iff index⟩
  exact ⟨hchain, Chunk.inside_iff_isChain hchain⟩

/-- Two short lines before a long one: the chunk of the second line lies inside the chunk of
both, and ends where that does. -/
theorem chunk_inside_shortLines :
    3 < 6 ∧
    chunks "a\nb\nccccccc" 6 3 =
      [⟨0, 0, "a\nb\n"⟩, ⟨1, 2, "b\n"⟩, ⟨2, 4, "cccccc"⟩, ⟨3, 7, "cccc"⟩] ∧
    Chunk.Inside ⟨1, 2, "b\n"⟩ ⟨0, 0, "a\nb\n"⟩ ∧
    ¬ (chunks "a\nb\nccccccc" 6 3).IsChain fun a b => a.stop < b.stop := by
  decide +kernel

end Workbench.Text
