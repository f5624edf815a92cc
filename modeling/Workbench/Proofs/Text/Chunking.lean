/-
# Chunks lose nothing

The chunks of a text are found by walking along its characters. Here the same chunks are
found by positions in bytes, where every stretch is a slice that fails unless it falls
between characters and within the text: no slice on the way ever fails, and both ways
agree (`chunksFrom?_append`). Whatever the order in which the chunks arrive, putting them
together gives the text back (`chunks_lossless`): a chunk never starts beyond what the
chunks before it cover, so that what it adds is all that is missing up to its end.
-/

import Mathlib.Data.Nat.Basic
import Workbench.Text.Chunk
import Workbench.Proofs.Sorting
import Workbench.Proofs.Text.Position

namespace Workbench.Text

namespace Chunk

/-! ### Finding chunks by positions -/

/-- The position up to which there is room for the chunk that starts at `start`. -/
def roomStop (s : List Char) (size start : Nat) : Nat :=
  let last := Position.floor s (min (start + size) (byteLength s))
  -- a size below that of the first character leaves room for none
  if last ≤ start then Position.ceil s (start + 1) else last

/-- The position at which the chunk that starts at `start` ends. -/
def stopAt? (s : List Char) (size start : Nat) : Option Nat :=
  let hard := roomStop s size start
  if hard = byteLength s then some hard
  else match slice? s start hard with
    | none => none
    | some stretch =>
        match throughLastNewline stretch with
        | some lines => some (start + byteLength lines)
        | none => some hard

/-- The position at which the chunk after the one from `start` to `stop` starts. -/
def nextStart? (s : List Char) (overlap start stop : Nat) : Option Nat :=
  let target := Position.ceil s (max (stop - overlap) (start + 1))
  if stop ≤ target then some stop
  else match byteAt? s (target - 1) with
    | none => none
    | some byte =>
        if byte = 0x0A then some target
        else match slice? s target stop with
          | none => none
          | some stretch =>
              match throughFirstNewline stretch with
              | some line => some (target + byteLength line)
              | none => some target

theorem lt_ceil {s : List Char} {i n : Nat} (hi : i < byteLength s) (hn : i < n) :
    i < Position.ceil s n := by
  fun_induction Position.ceil s n with
  | case1 n h ih => exact ih (by omega)
  | case2 n h => omega

theorem lt_roomStop {s : List Char} {start : Nat} (hs : start < byteLength s) (size : Nat) :
    start < roomStop s size start := by
  unfold roomStop
  simp only
  split
  · exact lt_ceil hs (by omega)
  · omega

/-- A chunk has an end after its start. -/
theorem lt_of_stopAt? {s : List Char} {size start stop : Nat} (hs : start < byteLength s)
    (h : stopAt? s size start = some stop) : start < stop := by
  have hhard := lt_roomStop hs size
  unfold stopAt? at h
  simp only at h
  split at h
  · exact Option.some.inj h ▸ hhard
  · split at h
    · simp at h
    · split at h
      · rename_i lines hl
        have hpos := byteLength_pos (throughLastNewline_ne_nil hl)
        have := Option.some.inj h
        omega
      · exact Option.some.inj h ▸ hhard

/-- The next chunk starts after the start of this one. -/
theorem lt_of_nextStart? {s : List Char} {overlap start stop next : Nat}
    (hs : start < byteLength s) (hstop : start < stop)
    (h : nextStart? s overlap start stop = some next) : start < next := by
  have htarget : start < Position.ceil s (max (stop - overlap) (start + 1)) :=
    lt_ceil hs (by omega)
  unfold nextStart? at h
  simp only at h
  generalize Position.ceil s (max (stop - overlap) (start + 1)) = target at h htarget
  split at h
  · exact Option.some.inj h ▸ hstop
  · split at h
    · simp at h
    · split at h
      · exact Option.some.inj h ▸ htarget
      · split at h
        · simp at h
        · split at h
          · have := Option.some.inj h
            omega
          · exact Option.some.inj h ▸ htarget

/-- The chunks from position `start` on; none when a slice on the way falls inside a
character or beyond the text. -/
def chunksFrom? (s : List Char) (size overlap index start : Nat) : Option (List Chunk) :=
  if _hs : start < byteLength s then
    match _hstop : stopAt? s size start with
    | none => none
    | some stop =>
        match slice? s start stop with
        | none => none
        | some piece =>
            let here : Chunk := ⟨index, start, String.ofList piece⟩
            if stop = byteLength s then some [here]
            else match hnext : nextStart? s overlap start stop with
              | none => none
              | some next => (chunksFrom? s size overlap (index + 1) next).map (here :: ·)
  else some []
termination_by byteLength s - start
decreasing_by
  have := lt_of_nextStart? _hs (lt_of_stopAt? _hs _hstop) hnext
  omega

/-- One round of finding chunks, when none of its slices fails. -/
theorem chunksFrom?_step {s : List Char} {size overlap start stop next : Nat} {piece : List Char}
    (hs : start < byteLength s) (hstop : stopAt? s size start = some stop)
    (hpiece : slice? s start stop = some piece)
    (hnext : nextStart? s overlap start stop = some next) (index : Nat) :
    chunksFrom? s size overlap index start =
      if stop = byteLength s then some [⟨index, start, String.ofList piece⟩]
      else (chunksFrom? s size overlap (index + 1) next).map
        (⟨index, start, String.ofList piece⟩ :: ·) := by
  rw [chunksFrom?, dif_pos hs]
  split
  · rename_i h
    simp [hstop] at h
  · rename_i stop' h
    obtain rfl : stop = stop' := Option.some.inj (hstop.symm.trans h)
    rw [hpiece]
    simp only
    split
    · rfl
    · split
      · rename_i h
        simp [hnext] at h
      · rename_i next' h
        obtain rfl : next = next' := Option.some.inj (hnext.symm.trans h)
        rfl

/-! ### Shapes of a chunk -/

theorem prefix_throughLastNewline {s lines : List Char} (h : throughLastNewline s = some lines) :
    lines <+: s := by
  induction s generalizing lines with
  | nil => simp [throughLastNewline] at h
  | cons c rest ih =>
    unfold throughLastNewline at h
    split at h
    · rename_i line hl
      obtain rfl := Option.some.inj h
      exact List.cons_prefix_cons.mpr ⟨rfl, ih hl⟩
    · split at h
      · obtain rfl := Option.some.inj h
        exact List.cons_prefix_cons.mpr ⟨rfl, List.nil_prefix⟩
      · simp at h

theorem prefix_throughFirstNewline {s line : List Char} (h : throughFirstNewline s = some line) :
    line <+: s := by
  induction s generalizing line with
  | nil => simp [throughFirstNewline] at h
  | cons c rest ih =>
    unfold throughFirstNewline at h
    split at h
    · obtain rfl := Option.some.inj h
      exact List.cons_prefix_cons.mpr ⟨rfl, List.nil_prefix⟩
    · obtain ⟨more, hmore, rfl⟩ := Option.map_eq_some_iff.mp h
      exact List.cons_prefix_cons.mpr ⟨rfl, ih hmore⟩

theorem prefix_room (size : Nat) (rest : List Char) : room size rest <+: rest := by
  unfold room
  split
  · exact List.take_prefix ..
  · exact prefix_takeBytes ..

/-- A chunk begins what is left of the text. -/
theorem prefix_body (size : Nat) (rest : List Char) : body size rest <+: rest := by
  unfold body
  simp only
  split
  · exact prefix_room ..
  · cases h : throughLastNewline (room size rest) with
    | none => exact prefix_room ..
    | some lines => exact (prefix_throughLastNewline h).trans (prefix_room ..)

/-- The next chunk starts inside this one, or where it ends. -/
theorem prefix_stride (overlap : Nat) (chunk : List Char) : stride overlap chunk <+: chunk := by
  have happ := splitAtLeast_append (max (byteLength chunk - overlap) 1) chunk
  unfold stride
  generalize splitAtLeast (max (byteLength chunk - overlap) 1) chunk = p at happ
  obtain ⟨before, after⟩ := p
  simp only at happ ⊢
  split
  · exact List.prefix_refl _
  · split
    · exact ⟨after, happ⟩
    · split
      · rename_i line hl
        obtain ⟨rest, rfl⟩ := prefix_throughFirstNewline hl
        exact ⟨rest, by rw [← happ, List.append_assoc]⟩
      · exact ⟨after, happ⟩

/-! ### Both ways agree -/

theorem eq_of_prefix_of_byteLength {s t : List Char} (h : s <+: t)
    (hlen : byteLength s = byteLength t) : s = t := by
  obtain ⟨rest, rfl⟩ := h
  rw [byteLength_append] at hlen
  have : rest = [] := byteLength_eq_zero.mp (by omega)
  simp [this]

theorem takeBytes_min (s : List Char) (n : Nat) :
    takeBytes (min n (byteLength s)) s = takeBytes n s := by
  rcases Nat.le_total n (byteLength s) with hle | hle
  · rw [Nat.min_eq_left hle]
  · rw [Nat.min_eq_right hle, takeBytes_of_byteLength_le hle,
      takeBytes_of_byteLength_le (Nat.le_refl _)]

/-- The room for a chunk, found by positions, is the room for it. -/
theorem roomStop_append (pre : List Char) {rest : List Char} (hrest : rest ≠ []) (size : Nat) :
    roomStop (pre ++ rest) size (byteLength pre) =
      byteLength pre + byteLength (room size rest) := by
  have hfloor : Position.floor (pre ++ rest)
      (min (byteLength pre + size) (byteLength (pre ++ rest))) =
      byteLength pre + byteLength (takeBytes size rest) := by
    rw [byteLength_append, Nat.add_min_add_left, Position.floor_eq, takeBytes_append,
      takeBytes_min, byteLength_append]
  unfold roomStop room
  simp only
  rw [hfloor, Position.ceil_eq, splitAtLeast_append_left _ _ (by omega), byteLength_append]
  cases hfit : takeBytes size rest with
  | nil =>
    rw [if_pos (by simp)]
    cases rest with
    | nil => exact absurd rfl hrest
    | cons c rest =>
      have hpos := c.utf8Size_pos
      rw [splitAtLeast_cons (by omega), show 1 - c.utf8Size = 0 by omega]
      simp
  | cons c fitting =>
    have hpos := byteLength_pos (List.cons_ne_nil c fitting)
    rw [if_neg (by omega)]

theorem length_eq_iff_byteLength_eq {s t : List Char} (h : s <+: t) :
    s.length = t.length ↔ byteLength s = byteLength t :=
  ⟨fun hlen => by rw [h.eq_of_length hlen],
    fun hlen => by rw [eq_of_prefix_of_byteLength h hlen]⟩

/-- The end of a chunk, found by positions, is where the chunk ends. -/
theorem stopAt?_append (pre : List Char) {rest : List Char} (hrest : rest ≠ []) (size : Nat) :
    stopAt? (pre ++ rest) size (byteLength pre) =
      some (byteLength pre + byteLength (body size rest)) := by
  have hroom := prefix_room size rest
  unfold stopAt?
  simp only
  rw [roomStop_append pre hrest size, byteLength_append]
  by_cases hall : byteLength (room size rest) = byteLength rest
  · rw [if_pos (by rw [hall]), body, if_pos ((length_eq_iff_byteLength_eq hroom).mpr hall)]
  · rw [if_neg (by omega)]
    have hslice : slice? (pre ++ rest) (byteLength pre)
        (byteLength pre + byteLength (room size rest)) = some (room size rest) := by
      obtain ⟨later, hlater⟩ := hroom
      have h := slice?_append pre (room size rest) later
      rwa [List.append_assoc, hlater] at h
    rw [hslice, body, if_neg fun h => hall ((length_eq_iff_byteLength_eq hroom).mp h)]
    cases h : throughLastNewline (room size rest) <;> simp [h]

/-- The start of the next chunk, found by positions, lies one stride on. -/
theorem nextStart?_append (pre rest : List Char) {chunk : List Char} (hchunk : chunk ≠ [])
    (overlap : Nat) :
    nextStart? (pre ++ chunk ++ rest) overlap (byteLength pre)
        (byteLength pre + byteLength chunk) =
      some (byteLength pre + byteLength (stride overlap chunk)) := by
  have hpos := byteLength_pos hchunk
  have happ := splitAtLeast_append (max (byteLength chunk - overlap) 1) chunk
  have hbefore := splitAtLeast_fst_ne_nil (max (byteLength chunk - overlap) 1) hchunk (by omega)
  have htarget : Position.ceil (pre ++ chunk ++ rest)
      (max (byteLength pre + byteLength chunk - overlap) (byteLength pre + 1)) =
      byteLength pre + byteLength (splitAtLeast (max (byteLength chunk - overlap) 1) chunk).1 := by
    rw [show max (byteLength pre + byteLength chunk - overlap) (byteLength pre + 1) =
        byteLength pre + max (byteLength chunk - overlap) 1 by omega,
      Position.ceil_eq, List.append_assoc, splitAtLeast_append_left _ _ (by omega),
      splitAtLeast_append_of_le _ (by omega), byteLength_append]
  unfold nextStart? stride
  simp only
  rw [htarget]
  generalize splitAtLeast (max (byteLength chunk - overlap) 1) chunk = p at happ hbefore
  obtain ⟨before, after⟩ := p
  simp only at happ hbefore ⊢
  subst happ
  rw [byteLength_append]
  by_cases hafter : after = []
  · subst hafter
    simp
  · have hafterPos := byteLength_pos hafter
    rw [if_neg (by omega), if_neg hafter]
    -- the byte before the target is the last of the stretch before it
    obtain ⟨byte, hbyte, hnewline⟩ :=
      byteAt?_last (pre ++ before) (after ++ rest) (by simp [hbefore])
    rw [byteLength_append] at hbyte
    rw [show pre ++ (before ++ after) ++ rest = pre ++ before ++ (after ++ rest) by simp, hbyte]
    rw [List.getLast?_append, List.getLast?_eq_some_getLast hbefore, Option.some_or,
      ← List.getLast?_eq_some_getLast hbefore] at hnewline
    simp only [hnewline]
    split
    · rfl
    · have hslice := slice?_append (pre ++ before) after rest
      rw [byteLength_append, Nat.add_assoc, List.append_assoc] at hslice
      rw [hslice]
      cases h : throughFirstNewline after <;> simp [h, Nat.add_assoc]

/-- One stride on, the text before is longer and the text to come is shorter. -/
theorem stride_append_drop (size overlap : Nat) (rest : List Char) :
    stride overlap (body size rest) ++ rest.drop (stride overlap (body size rest)).length =
      rest :=
  List.prefix_iff_eq_append.mp ((prefix_stride overlap (body size rest)).trans
    (prefix_body size rest))

/-- **Both ways of finding chunks agree**: no slice that finding them by positions takes
falls inside a character or beyond the text. -/
theorem chunksFrom?_append (size overlap index : Nat) (pre rest : List Char) :
    chunksFrom? (pre ++ rest) size overlap index (byteLength pre) =
      some (chunksFrom size overlap index (byteLength pre) rest) := by
  generalize hoffset : byteLength pre = offset
  fun_induction chunksFrom size overlap index offset rest generalizing pre with
  | case1 index offset =>
    rw [← hoffset, chunksFrom?, dif_neg (by simp)]
  | case2 index offset rest hrest chunk here hlen =>
    subst hoffset
    have hwhole : body size rest = rest := (prefix_body size rest).eq_of_length hlen
    have hstop := stopAt?_append pre hrest size
    have hslice := slice?_append pre rest []
    have hnext := nextStart?_append pre [] hrest overlap
    rw [hwhole, ← byteLength_append] at hstop
    rw [List.append_nil, ← byteLength_append] at hslice hnext
    rw [chunksFrom?_step (by have := byteLength_pos hrest; rw [byteLength_append]; omega)
      hstop hslice hnext, if_pos rfl]
    simp only [here, chunk, hwhole]
  | case3 index offset rest hrest chunk here hlen step ih =>
    subst hoffset
    obtain ⟨later, hlater⟩ := prefix_body size rest
    have hslice := slice?_append pre (body size rest) later
    have hnext := nextStart?_append pre later (body_ne_nil size hrest) overlap
    rw [List.append_assoc, hlater] at hslice hnext
    have hstop : byteLength pre + byteLength (body size rest) ≠ byteLength (pre ++ rest) := by
      intro heq
      apply hlen
      rw [byteLength_append, Nat.add_left_cancel_iff] at heq
      exact (length_eq_iff_byteLength_eq ⟨later, hlater⟩).mpr heq
    rw [chunksFrom?_step (by have := byteLength_pos hrest; rw [byteLength_append]; omega)
      (stopAt?_append pre hrest size) hslice hnext, if_neg hstop]
    have hih := ih (pre ++ step) (byteLength_append pre step)
    rw [List.append_assoc, stride_append_drop] at hih
    simp only [step, chunk] at hih
    rw [hih]
    rfl

/-! ### Putting chunks together -/

/-- Chunks are counted from the first index on. -/
theorem map_index_chunksFrom (size overlap index offset : Nat) (rest : List Char) :
    (chunksFrom size overlap index offset rest).map (·.index) =
      List.range' index (chunksFrom size overlap index offset rest).length := by
  fun_induction chunksFrom size overlap index offset rest with
  | case1 index offset => rfl
  | case2 index offset rest hrest chunk here hlen => rfl
  | case3 index offset rest hrest chunk here hlen step ih =>
    rw [List.map_cons, ih, List.length_cons, List.range'_succ]

/-- Chunks start inside the text, and there are no more of them before a chunk than bytes. -/
theorem bounds_of_mem_chunksFrom {size overlap index offset : Nat} {rest : List Char} {c : Chunk}
    (h : c ∈ chunksFrom size overlap index offset rest) :
    c.offset < offset + byteLength rest ∧ c.index + offset ≤ c.offset + index := by
  fun_induction chunksFrom size overlap index offset rest with
  | case1 index offset => cases h
  | case2 index offset rest hrest chunk here hlen =>
    obtain rfl := List.mem_singleton.mp h
    exact ⟨Nat.lt_add_of_pos_right (byteLength_pos hrest), Nat.le_of_eq (Nat.add_comm ..)⟩
  | case3 index offset rest hrest chunk here hlen step ih =>
    have hstep : 0 < byteLength step :=
      byteLength_pos (List.length_pos_iff.mp (stride_length_pos overlap (body_ne_nil size hrest)))
    have hsplit := congrArg byteLength (stride_append_drop size overlap rest)
    rw [byteLength_append] at hsplit
    rcases List.mem_cons.mp h with rfl | hmem
    · exact ⟨Nat.lt_add_of_pos_right (byteLength_pos hrest), Nat.le_of_eq (Nat.add_comm ..)⟩
    · obtain ⟨hstart, hindex⟩ := ih hmem
      simp only [step, chunk] at hstart hindex hstep
      omega

theorem stop_mk (index offset : Nat) (s : List Char) :
    stop ⟨index, offset, String.ofList s⟩ = offset + byteLength s := by
  rw [stop, byteLength_ofList]

/-- A chunk that ends within what is covered adds nothing. -/
theorem additions?_cons_of_le {chunk : Chunk} {covered : Nat} (h : chunk.stop ≤ covered)
    (rest : List Chunk) : additions? covered (chunk :: rest) = additions? covered rest := by
  rw [additions?, if_pos h]

/-- A chunk that goes on from what is covered adds the text after it. -/
theorem additions?_cons_append (index offset : Nat) (got : List Char) {new : List Char}
    (hnew : new ≠ []) (rest : List Chunk) :
    additions? (offset + byteLength got) (⟨index, offset, String.ofList (got ++ new)⟩ :: rest) =
      (additions? (offset + byteLength (got ++ new)) rest).map (new ++ ·) := by
  have hpos := byteLength_pos hnew
  rw [additions?, stop_mk, byteLength_append, if_neg (by omega), Nat.add_sub_cancel_left,
    String.toList_ofList, dropBytes?_append_self]
  cases additions? (offset + (byteLength got + byteLength new)) rest <;> rfl

/-- **What the chunks add is what is missing.** When the first `got` of the text from here
on is covered already, the chunks from here on add the rest of it, once. -/
theorem additions?_chunksFrom (size overlap index offset : Nat) (got left rest : List Char)
    (hrest : rest = got ++ left) :
    additions? (offset + byteLength got) (chunksFrom size overlap index offset rest) =
      some left := by
  fun_induction chunksFrom size overlap index offset rest generalizing got left with
  | case1 index offset =>
    obtain ⟨rfl, rfl⟩ := List.append_eq_nil_iff.mp hrest.symm
    rfl
  | case2 index offset rest hne chunk here hlen =>
    have hwhole : chunk = got ++ left :=
      ((prefix_body size rest).eq_of_length hlen).trans hrest
    simp only [here, hwhole]
    by_cases hleft : left = []
    · subst hleft
      rw [additions?_cons_of_le (Nat.le_of_eq (by rw [stop_mk, List.append_nil]))]
      rfl
    · rw [additions?_cons_append _ _ _ hleft, additions?, Option.map_some, List.append_nil]
  | case3 index offset rest hne chunk here hlen step ih =>
    obtain ⟨ahead, hahead⟩ : step <+: chunk := prefix_stride overlap chunk
    have hchunk : chunk <+: rest := prefix_body size rest
    have hdrop : step ++ rest.drop step.length = rest := stride_append_drop size overlap rest
    rcases Nat.lt_or_ge (byteLength got) (byteLength chunk) with hlt | hle
    rotate_left
    · -- the chunk lies within what is covered
      obtain ⟨more, hmore⟩ := prefix_of_byteLength_le hchunk ⟨left, hrest.symm⟩ hle
      have hgot : got = step ++ (ahead ++ more) := by
        rw [← hmore, ← hahead, List.append_assoc]
      have hih := ih (ahead ++ more) left (by
        refine List.append_cancel_left (?_ : step ++ _ = step ++ _)
        rw [hdrop, hrest, hgot, List.append_assoc])
      rw [additions?_cons_of_le (by rw [stop_mk]; omega), hgot, byteLength_append, ← Nat.add_assoc]
      exact hih
    · obtain ⟨new, hnew⟩ :=
        prefix_of_byteLength_le ⟨left, hrest.symm⟩ hchunk (Nat.le_of_lt hlt)
      obtain ⟨later, hlater⟩ := hchunk
      have hleft : left = new ++ later := by
        refine List.append_cancel_left (?_ : got ++ _ = got ++ _)
        rw [← hrest, ← hlater, ← hnew, List.append_assoc]
      have hnil : new ≠ [] := by
        rintro rfl
        rw [← hnew, List.append_nil] at hlt
        omega
      have hih := ih ahead later (by
        refine List.append_cancel_left (?_ : step ++ _ = step ++ _)
        rw [hdrop, ← hlater, ← hahead, List.append_assoc])
      rw [Nat.add_assoc, ← byteLength_append, hahead] at hih
      simp only [here]
      rw [← hnew, additions?_cons_append _ _ _ hnil, hnew, hih, hleft, Option.map_some]

end Chunk

/-- Sorting by index puts chunks back into the order in which they were cut. -/
theorem mergeSort_of_perm_chunks {text : String} {size overlap : Nat} {cs : List Chunk}
    (h : cs.Perm (chunks text size overlap)) :
    (cs.mergeSort fun a b => a.index ≤ b.index) = chunks text size overlap := by
  have hindex : (chunks text size overlap).map (·.index) =
      List.range' 0 (chunks text size overlap).length := Chunk.map_index_chunksFrom ..
  have hlt : (chunks text size overlap).Pairwise fun a b => a.index < b.index := by
    have hpair := List.pairwise_lt_range' (s := 0) (n := (chunks text size overlap).length)
    rw [← hindex, List.pairwise_map] at hpair
    exact hpair
  exact Sorting.mergeSort_of_perm Chunk.index (fun _ _ => decide_eq_true_iff) hlt h

/-- The numbers of a chunk are less than the bytes of the text. -/
theorem bounds_of_mem_chunks {text : String} {size overlap : Nat} {c : Chunk}
    (h : c ∈ chunks text size overlap) :
    c.offset < text.utf8ByteSize ∧ c.index ≤ c.offset := by
  have hbounds := Chunk.bounds_of_mem_chunksFrom h
  rwa [Nat.zero_add, Nat.add_zero, Nat.add_zero, byteLength_toList] at hbounds

/-- Chunks in any order are put together to the text that they were cut from. -/
theorem reassemble?_of_perm {text : String} {size overlap : Nat} {cs : List Chunk}
    (h : cs.Perm (chunks text size overlap)) : reassemble? cs = some text := by
  have hadd := Chunk.additions?_chunksFrom (max size 1) overlap 0 0 [] text.toList text.toList rfl
  rw [byteLength_nil] at hadd
  rw [reassemble?, mergeSort_of_perm_chunks h, chunks, hadd, Option.map_some, String.ofList_toList]

/-- The chunks of a text, found by positions in bytes. A size of 0 counts as 1. -/
def chunks? (text : String) (size overlap : Nat) : Option (List Chunk) :=
  Chunk.chunksFrom? text.toList (max size 1) overlap 0 0

/-- **Chunking loses and duplicates nothing.** For every text, size and overlap all slices
by which the chunks are found fall between characters and within the text; and from the
chunks in any order the text is put together again, again without a cut that falls inside
a character or beyond a chunk. -/
theorem chunks_lossless (text : String) (size overlap : Nat) :
    chunks? text size overlap = some (chunks text size overlap) ∧
      ∀ cs : List Chunk, cs.Perm (chunks text size overlap) → reassemble? cs = some text :=
  ⟨Chunk.chunksFrom?_append (max size 1) overlap 0 [] text.toList, fun _ => reassemble?_of_perm⟩

theorem chunks_lossless_shuffled :
    [⟨3, 7, "d"⟩, ⟨1, 1, "é\n"⟩, ⟨0, 0, "aé"⟩, ⟨2, 4, "bc\n"⟩].Perm (chunks "aé\nbc\nd" 3 2) ∧
      reassemble? [⟨3, 7, "d"⟩, ⟨1, 1, "é\n"⟩, ⟨0, 0, "aé"⟩, ⟨2, 4, "bc\n"⟩] =
        some "aé\nbc\nd" := by
  have hperm : [⟨3, 7, "d"⟩, ⟨1, 1, "é\n"⟩, ⟨0, 0, "aé"⟩, ⟨2, 4, "bc\n"⟩].Perm
      (chunks "aé\nbc\nd" 3 2) := by decide +kernel
  exact ⟨hperm, (chunks_lossless "aé\nbc\nd" 3 2).2 _ hperm⟩

end Workbench.Text
