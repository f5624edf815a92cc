/-
# Where the next chunk starts

The next chunk may share no more than the overlap with this one and must start after it, so
it starts at or after a position that both bounds give. It prefers the start of a line: the
walk along the characters looks at the character before the first cut that is late enough and
then at the first newline after that cut. Here this is shown to find the first line start that
is late enough and not beyond the chunk, or the first cut that is late enough when there is no
such line start (`Restart`), whatever the text, the chunk and the overlap.

* `IsLineStart` — a position right after a newline.
* `Restart` — what the start of the next chunk has to be.
* `next_chunk_start` — **the start that is found is that one**.
* `chunks_isChain_restart` — neighbouring chunks of a text start as `Restart` says.
-/

import Mathlib.Order.Bounds.Defs
import Workbench.Proofs.Text.Shaping

namespace Workbench.Text

/-- A position right after a newline. -/
def IsLineStart (s : List Char) (p : Nat) : Prop :=
  ∃ front, front <+: s ∧ front.getLast? = some '\n' ∧ byteLength front = p

/-- Where the chunk after one that ends at `stop` has to start, when it may not start before
`least`: at the first line start, or at the first cut between characters if no line starts in
time. -/
def Restart (s : List Char) (least stop next : Nat) : Prop :=
  IsLeast {p | IsLineStart s p ∧ least ≤ p ∧ p ≤ stop} next ∨
    ((∀ p, IsLineStart s p → least ≤ p → stop < p) ∧
      IsLeast {p | Position.isBoundary s p = true ∧ least ≤ p} next)

namespace Chunk

variable {s front line pre chunk rest : List Char} {n least : Nat}

/-! ### First newlines -/

theorem throughFirstNewline_eq_none_iff : throughFirstNewline s = none ↔ '\n' ∉ s := by
  induction s with
  | nil => simp [throughFirstNewline]
  | cons c s ih =>
      by_cases hc : c = '\n'
      · simp [throughFirstNewline, hc]
      · simp [throughFirstNewline, hc, ih, Ne.symm hc]

theorem getLast?_of_throughFirstNewline (h : throughFirstNewline s = some line) :
    line.getLast? = some '\n' := by
  induction s generalizing line with
  | nil => simp [throughFirstNewline] at h
  | cons c s ih =>
      unfold throughFirstNewline at h
      split at h
      · next hc =>
          obtain rfl := Option.some.inj h
          rw [hc, List.getLast?_singleton]
      · obtain ⟨more, hmore, rfl⟩ := Option.map_eq_some_iff.mp h
        have hlast := ih hmore
        have hne : more ≠ [] := by
          rintro rfl
          simp at hlast
        rw [List.getLast?_cons_of_ne_nil hne, hlast]

/-- Nothing shorter than the text through its first newline holds a newline. -/
theorem throughFirstNewline_isPrefix (h : throughFirstNewline s = some line) (hfront : front <+: s)
    (hmem : '\n' ∈ front) : line <+: front := by
  induction s generalizing line front with
  | nil => simp [throughFirstNewline] at h
  | cons c s ih =>
      cases front with
      | nil => simp at hmem
      | cons d front =>
          obtain ⟨rfl, hbegin⟩ := List.cons_prefix_cons.mp hfront
          unfold throughFirstNewline at h
          split at h
          · obtain rfl := Option.some.inj h
            exact List.cons_prefix_cons.mpr ⟨rfl, List.nil_prefix⟩
          · next hd =>
              obtain ⟨more, hmore, rfl⟩ := Option.map_eq_some_iff.mp h
              have hmem : '\n' ∈ front := by
                rcases List.mem_cons.mp hmem with heq | hmem
                · exact absurd heq.symm hd
                · exact hmem
              exact List.cons_prefix_cons.mpr ⟨rfl, ih hmore hbegin hmem⟩

/-! ### First cuts -/

/-- Nothing shorter than what reaches a size reaches it. -/
theorem splitAtLeast_fst_isPrefix (hfront : front <+: s) (h : n ≤ byteLength front) :
    (splitAtLeast n s).1 <+: front := by
  obtain ⟨later, rfl⟩ := hfront
  rw [splitAtLeast_append_of_le later h]
  exact ⟨_, splitAtLeast_append n front⟩

/-- What begins a text but not less of it goes on after that. -/
theorem exists_append_of_splitAtLeast (hfront : front <+: s) (h : n ≤ byteLength front) :
    ∃ more, front = (splitAtLeast n s).1 ++ more ∧ more <+: (splitAtLeast n s).2 := by
  obtain ⟨more, hmore⟩ := splitAtLeast_fst_isPrefix hfront h
  refine ⟨more, hmore.symm, ?_⟩
  rw [← hmore] at hfront
  nth_rewrite 2 [← splitAtLeast_append n s] at hfront
  exact (List.prefix_append_right_inj _).mp hfront

/-- The stride, told without the case of a cut at the end of the chunk. -/
theorem stride_eq (overlap : Nat) (chunk : List Char) :
    stride overlap chunk =
      if (splitAtLeast (max (byteLength chunk - overlap) 1) chunk).1.getLast? = some '\n' then
        (splitAtLeast (max (byteLength chunk - overlap) 1) chunk).1
      else
        (splitAtLeast (max (byteLength chunk - overlap) 1) chunk).1 ++
          (throughFirstNewline
            (splitAtLeast (max (byteLength chunk - overlap) 1) chunk).2).getD [] := by
  have happ := splitAtLeast_append (max (byteLength chunk - overlap) 1) chunk
  unfold stride
  generalize splitAtLeast (max (byteLength chunk - overlap) 1) chunk = cut at happ
  obtain ⟨before, after⟩ := cut
  simp only at happ ⊢
  by_cases hafter : after = []
  · subst hafter
    rw [if_pos rfl, ← happ]
    simp [throughFirstNewline]
  · rw [if_neg hafter]
    cases throughFirstNewline after <;> simp

/-- A line that ends later than a cut that ends none ends with a newline after the cut. -/
theorem newline_mem_of_getLast? {before more : List Char} (hcut : before.getLast? ≠ some '\n')
    (h : (before ++ more).getLast? = some '\n') : '\n' ∈ more := by
  have hne : more ≠ [] := by
    rintro rfl
    rw [List.append_nil] at h
    exact hcut h
  rw [List.getLast?_append_of_ne_nil before hne] at h
  exact List.mem_of_getLast? h

/-- **A stride ends a line if it can**: it is the shortest beginning of the chunk that is long
enough and ends with a newline, or, if there is none, the shortest that is long enough. -/
theorem stride_cases (overlap : Nat) (hchunk : chunk ≠ [])
    (hleast : least = max (byteLength chunk - overlap) 1) :
    ((stride overlap chunk).getLast? = some '\n' ∧ least ≤ byteLength (stride overlap chunk) ∧
      ∀ front, front <+: chunk → front.getLast? = some '\n' → least ≤ byteLength front →
        stride overlap chunk <+: front) ∨
    ((∀ front, front <+: chunk → front.getLast? = some '\n' → byteLength front < least) ∧
      stride overlap chunk = (splitAtLeast least chunk).1) := by
  have hpos := byteLength_pos hchunk
  have hlong : least ≤ byteLength (splitAtLeast least chunk).1 :=
    le_byteLength_splitAtLeast (by omega)
  have hmore := fun front (hfront : front <+: chunk) =>
    exists_append_of_splitAtLeast (n := least) hfront
  rw [stride_eq, ← hleast]
  generalize splitAtLeast least chunk = cut at hlong hmore
  obtain ⟨before, after⟩ := cut
  simp only at hlong hmore ⊢
  by_cases hend : before.getLast? = some '\n'
  · rw [if_pos hend]
    refine .inl ⟨hend, hlong, ?_⟩
    intro front hfront hline hfar
    obtain ⟨more, rfl, -⟩ := hmore front hfront hfar
    exact List.prefix_append before more
  · rw [if_neg hend]
    cases hfirst : throughFirstNewline after with
    | none =>
        refine .inr ⟨?_, List.append_nil before⟩
        intro front hfront hline
        by_contra hfar
        obtain ⟨more, rfl, hafter⟩ := hmore front hfront (by omega)
        exact throughFirstNewline_eq_none_iff.mp hfirst
          (hafter.subset (newline_mem_of_getLast? hend hline))
    | some line =>
        have hline := getLast?_of_throughFirstNewline hfirst
        have hne : line ≠ [] := by
          rintro rfl
          simp at hline
        refine .inl ⟨?_, ?_, ?_⟩
        · rw [Option.getD_some, List.getLast?_append_of_ne_nil before hne, hline]
        · rw [byteLength_append]
          omega
        · intro front hfront hlast hfar
          obtain ⟨more, rfl, hafter⟩ := hmore front hfront hfar
          exact (List.prefix_append_right_inj before).mpr
            (throughFirstNewline_isPrefix hfirst hafter (newline_mem_of_getLast? hend hlast))

/-! ### Positions in the text -/

/-- A text is cut between two characters where a beginning of it ends. -/
theorem isBoundary_iff {p : Nat} :
    Position.isBoundary s p = true ↔ ∃ front, front <+: s ∧ byteLength front = p := by
  constructor
  · intro h
    exact ⟨takeBytes p s, prefix_takeBytes p s, Position.byteLength_takeBytes_of_isBoundary h⟩
  · rintro ⟨front, ⟨later, rfl⟩, rfl⟩
    rw [Position.isBoundary, dropBytes?_append_self, Option.isSome_some]

/-- The first cut that is late enough. -/
theorem isLeast_splitAtLeast (h : n ≤ byteLength s) :
    IsLeast {p | Position.isBoundary s p = true ∧ n ≤ p} (byteLength (splitAtLeast n s).1) := by
  constructor
  · refine ⟨isBoundary_iff.mpr ⟨_, ?_, rfl⟩, le_byteLength_splitAtLeast h⟩
    exact ⟨_, splitAtLeast_append n s⟩
  · rintro p ⟨hp, hn⟩
    obtain ⟨front, hfront, rfl⟩ := isBoundary_iff.mp hp
    exact byteLength_mono (splitAtLeast_fst_isPrefix hfront hn)

/-- The line starts after the start of a chunk and up to its end are where a beginning of the
chunk ends with a newline. -/
theorem isLineStart_iff_within {p : Nat} (hlow : byteLength pre < p)
    (hhigh : p ≤ byteLength pre + byteLength chunk) :
    IsLineStart (pre ++ (chunk ++ rest)) p ↔
      ∃ front, front <+: chunk ∧ front.getLast? = some '\n' ∧
        byteLength pre + byteLength front = p := by
  constructor
  · rintro ⟨whole, hwhole, hline, rfl⟩
    obtain ⟨front, rfl⟩ : pre <+: whole :=
      prefix_of_byteLength_le (List.prefix_append pre _) hwhole (Nat.le_of_lt hlow)
    rw [byteLength_append] at hlow hhigh
    have hne : front ≠ [] := by
      rintro rfl
      simp at hlow
    rw [List.getLast?_append_of_ne_nil pre hne] at hline
    have hfront := (List.prefix_append_right_inj pre).mp hwhole
    have hchunk : front <+: chunk :=
      prefix_of_byteLength_le hfront (List.prefix_append chunk rest) (by omega)
    exact ⟨front, hchunk, hline, (byteLength_append pre front).symm⟩
  · rintro ⟨front, ⟨later, rfl⟩, hline, rfl⟩
    have hne : front ≠ [] := by
      rintro rfl
      simp at hline
    refine ⟨pre ++ front, ?_, ?_, byteLength_append pre front⟩
    · exact ⟨later ++ rest, by simp only [List.append_assoc]⟩
    · rw [List.getLast?_append_of_ne_nil pre hne, hline]

/-- **One stride after the start of a chunk the next one has to start**, wherever in a text the
chunk stands. -/
theorem restart_stride (pre rest : List Char) (hchunk : chunk ≠ []) (overlap : Nat) :
    Restart (pre ++ (chunk ++ rest))
      (max (byteLength pre + byteLength chunk - overlap) (byteLength pre + 1))
      (byteLength pre + byteLength chunk) (byteLength pre + byteLength (stride overlap chunk)) := by
  have hpos := byteLength_pos hchunk
  have hleast : max (byteLength pre + byteLength chunk - overlap) (byteLength pre + 1) =
      byteLength pre + max (byteLength chunk - overlap) 1 := by omega
  have hstride := byteLength_mono (prefix_stride overlap chunk)
  rw [hleast]
  rcases stride_cases overlap hchunk rfl with ⟨hline, hfar, hfirst⟩ | ⟨hnone, hcut⟩
  · left
    constructor
    · refine ⟨?_, by omega, by omega⟩
      exact (isLineStart_iff_within (by omega) (by omega)).mpr
        ⟨_, prefix_stride overlap chunk, hline, rfl⟩
    · rintro p ⟨hp, hlow, hhigh⟩
      obtain ⟨front, hfront, hlast, rfl⟩ :=
        (isLineStart_iff_within (by omega) hhigh).mp hp
      have hle := byteLength_mono (hfirst front hfront hlast (by omega))
      omega
  · right
    constructor
    · intro p hp hlow
      by_contra hhigh
      obtain ⟨front, hfront, hlast, rfl⟩ :=
        (isLineStart_iff_within (by omega) (Nat.le_of_not_lt hhigh)).mp hp
      have hlt := hnone front hfront hlast
      omega
    · have hbound := isLeast_splitAtLeast (s := pre ++ (chunk ++ rest))
        (n := byteLength pre + max (byteLength chunk - overlap) 1)
        (by simp only [byteLength_append]; omega)
      rw [splitAtLeast_append_left _ _ (by omega), splitAtLeast_append_of_le _ (by omega),
        byteLength_append, ← hcut] at hbound
      exact hbound

end Chunk

/-- A stretch between two cuts of a text. -/
theorem exists_between {s : List Char} {start stop : Nat}
    (hstart : Position.isBoundary s start = true) (hstop : Position.isBoundary s stop = true)
    (h : start ≤ stop) :
    ∃ pre chunk rest, s = pre ++ (chunk ++ rest) ∧ byteLength pre = start ∧
      byteLength pre + byteLength chunk = stop := by
  obtain ⟨pre, hpre, rfl⟩ := Chunk.isBoundary_iff.mp hstart
  obtain ⟨front, ⟨rest, hrest⟩, rfl⟩ := Chunk.isBoundary_iff.mp hstop
  obtain ⟨chunk, rfl⟩ := prefix_of_byteLength_le hpre ⟨rest, hrest⟩ h
  refine ⟨pre, chunk, rest, ?_, rfl, ?_⟩
  · rw [← hrest, List.append_assoc]
  · rw [byteLength_append]

/-- **Where the next chunk starts.** For every stretch of a text from one cut between characters
to a later one, and every overlap, the next chunk is found to start within the stretch, after
its start: at the first line start that leaves no more than the overlap, if one comes in time,
and otherwise at the first cut that does. Walking along the characters of the stretch and
searching by positions in bytes find the same start. -/
theorem next_chunk_start (text : String) (start stop overlap : Nat)
    (hstart : Position.isBoundary text.toList start = true)
    (hstop : Position.isBoundary text.toList stop = true) (h : start < stop) :
    ∃ chunk next, slice? text.toList start stop = some chunk ∧
      start + byteLength (Chunk.stride overlap chunk) = next ∧
      Chunk.nextStart? text.toList overlap start stop = some next ∧
      start < next ∧ next ≤ stop ∧
      Restart text.toList (max (stop - overlap) (start + 1)) stop next := by
  obtain ⟨pre, chunk, rest, htext, rfl, rfl⟩ := exists_between hstart hstop (Nat.le_of_lt h)
  have hchunk : chunk ≠ [] := by
    rintro rfl
    simp at h
  have hslice := slice?_append pre chunk rest
  have hnext := Chunk.nextStart?_append pre rest hchunk overlap
  have hpos := byteLength_pos (List.length_pos_iff.mp (Chunk.stride_length_pos overlap hchunk))
  have hle := byteLength_mono (Chunk.prefix_stride overlap chunk)
  rw [List.append_assoc] at hslice hnext
  rw [htext]
  refine ⟨chunk, _, hslice, rfl, hnext, by omega, by omega, ?_⟩
  exact Chunk.restart_stride pre rest hchunk overlap

theorem next_chunk_start_accented :
    (Position.isBoundary "né\nüx\nz".toList 0 = true ∧
      Position.isBoundary "né\nüx\nz".toList 8 = true ∧ 0 < 8) ∧
    ∃ chunk next, slice? "né\nüx\nz".toList 0 8 = some chunk ∧
      0 + byteLength (Chunk.stride 5 chunk) = next ∧
      Chunk.nextStart? "né\nüx\nz".toList 5 0 8 = some next ∧
      0 < next ∧ next ≤ 8 ∧ Restart "né\nüx\nz".toList (max (8 - 5) (0 + 1)) 8 next := by
  have hstart : Position.isBoundary "né\nüx\nz".toList 0 = true := by decide
  have hstop : Position.isBoundary "né\nüx\nz".toList 8 = true := by decide
  have hlt : 0 < 8 := by decide
  exact ⟨⟨hstart, hstop, hlt⟩, next_chunk_start "né\nüx\nz" 0 8 5 hstart hstop hlt⟩

/-- **Neighbouring chunks of a text** start as far apart as that. -/
theorem chunks_isChain_restart (text : String) (size overlap : Nat) :
    (chunks text size overlap).IsChain fun chunk next =>
      Restart text.toList (max (chunk.stop - overlap) (chunk.offset + 1)) chunk.stop
        next.offset := by
  refine Chunk.isChain_chunksFrom ?turn 0 [] text.toList rfl
  case turn =>
    intro index before step ahead later hturn
    have hrestart := Chunk.restart_stride before later hturn.chunk_ne_nil overlap
    rw [List.append_assoc, hturn.whole, hturn.stride] at hrestart
    rw [Chunk.stop_cut, hturn.chunk]
    simp only [Chunk.cut, byteLength_append] at hrestart ⊢
    exact hrestart

end Workbench.Text
