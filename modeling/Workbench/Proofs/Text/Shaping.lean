/-
# Shapes of chunks

A chunk that does not end its text ends after its last newline, or takes all the room it has
when it holds none. The next chunk starts later, so it has room up to where this one had, and
beyond that for as much as was left behind. What both share is at its start; it ends with a
newline or holds none, so the next chunk keeps all of it. This is why ends never go back,
although they are pulled back to newlines: `Chunk.Turn.body_eq` says what the next chunk is.

* `Chunk.Turn` — a text from the start of one chunk to that of the next, and on to its end.
* `Chunk.isChain_chunksFrom` — what holds at every turn holds of all neighbouring chunks.
* `chunks_shaped` — **the shape of the chunks of a text**.
-/

import Mathlib.Data.List.Chain
import Workbench.Proofs.Text.Chunking

namespace Workbench.Text

namespace Chunk

variable {s t line rest step next before ahead beyond later : List Char} {size overlap index : Nat}

/-! ### Last newlines -/

theorem throughLastNewline_append (s t : List Char) :
    throughLastNewline (s ++ t) =
      ((throughLastNewline t).map (s ++ ·)).or (throughLastNewline s) := by
  induction s with
  | nil => cases h : throughLastNewline t <;> simp [h, throughLastNewline]
  | cons c s ih =>
      rw [List.cons_append, throughLastNewline, ih]
      cases throughLastNewline t with
      | none => rw [throughLastNewline]; rfl
      | some line => rfl

theorem throughLastNewline_eq_none_iff : throughLastNewline s = none ↔ '\n' ∉ s := by
  induction s with
  | nil => simp [throughLastNewline]
  | cons c s ih =>
      cases h : throughLastNewline s with
      | none =>
          have hs := ih.mp h
          by_cases hc : c = '\n'
          · simp [throughLastNewline, h, hc]
          · simp [throughLastNewline, h, hc, hs, Ne.symm hc]
      | some line =>
          have hs : '\n' ∈ s := by
            by_contra hno
            simp [ih.mpr hno] at h
          simp [throughLastNewline, h, hs]

/-- What ends with a newline is taken whole. -/
theorem throughLastNewline_of_getLast? (h : s.getLast? = some '\n') :
    throughLastNewline s = some s := by
  obtain ⟨init, rfl⟩ := List.getLast?_eq_some_iff.mp h
  rw [throughLastNewline_append]
  simp [throughLastNewline]

theorem getLast?_of_throughLastNewline (h : throughLastNewline s = some line) :
    line.getLast? = some '\n' := by
  induction s generalizing line with
  | nil => simp [throughLastNewline] at h
  | cons c s ih =>
      unfold throughLastNewline at h
      split at h
      · next more hmore =>
          obtain rfl := Option.some.inj h
          rw [List.getLast?_cons_of_ne_nil (throughLastNewline_ne_nil hmore), ih hmore]
      · split at h
        · next hc =>
            obtain rfl := Option.some.inj h
            rw [hc, List.getLast?_singleton]
        · cases h

/-! ### Room -/

theorem takeBytes_mono {m n : Nat} (h : m ≤ n) (s : List Char) :
    takeBytes m s <+: takeBytes n s := by
  refine prefix_of_byteLength_le (prefix_takeBytes m s) (prefix_takeBytes n s) ?_
  induction s generalizing m n with
  | nil => simp [takeBytes]
  | cons c s ih =>
      rcases Nat.lt_or_ge m c.utf8Size with hlt | hge
      · simp [takeBytes_cons_of_lt hlt]
      · rw [takeBytes_cons_of_le hge, takeBytes_cons_of_le (Nat.le_trans hge h), byteLength_cons,
          byteLength_cons]
        exact Nat.add_le_add_left (ih (Nat.sub_le_sub_right h _)) _

theorem takeBytes_prefix_room (size : Nat) (rest : List Char) :
    takeBytes size rest <+: room size rest := by
  unfold room
  split
  · next h => rw [h]; exact List.nil_prefix
  · exact List.prefix_refl _

/-- Room is for as many bytes as the size says, or for one character. -/
theorem byteLength_room_le_or (size : Nat) (rest : List Char) :
    byteLength (room size rest) ≤ size ∨ (room size rest).length = 1 := by
  unfold room
  split
  · cases rest with
    | nil => exact .inl (by simp)
    | cons c rest => exact .inr (by simp)
  · exact .inl (byteLength_takeBytes_le size rest)

/-- **Room only grows**: from a later start it goes at least as far. -/
theorem room_prefix_append (h : step <+: room size (step ++ next)) :
    room size (step ++ next) <+: step ++ room size next := by
  by_cases hfit : takeBytes size (step ++ next) = []
  · have hone : room size (step ++ next) = (step ++ next).take 1 := by
      unfold room
      rw [hfit]
    cases step with
    | nil => exact List.prefix_refl _
    | cons c step =>
        rw [hone]
        exact ⟨step ++ room size next, rfl⟩
  · have hroom : room size (step ++ next) = takeBytes size (step ++ next) := by
      unfold room
      split
      · next hnil => exact absurd hnil hfit
      · rfl
    rw [hroom] at h ⊢
    have hle : byteLength step ≤ size := by
      obtain ⟨more, hmore⟩ := h
      have hsize := byteLength_takeBytes_le size (step ++ next)
      rw [← hmore, byteLength_append] at hsize
      omega
    obtain ⟨k, rfl⟩ := Nat.exists_eq_add_of_le hle
    rw [takeBytes_append]
    refine (List.prefix_append_right_inj step).mpr ?_
    exact (takeBytes_mono (Nat.le_add_left k _) next).trans (takeBytes_prefix_room _ next)

/-! ### What a chunk says -/

theorem body_of_room_eq (h : room size rest = rest) : body size rest = rest := by
  rw [body]
  exact (if_pos (congrArg List.length h)).trans h

theorem body_of_room_ne (h : room size rest ≠ rest) :
    body size rest = (throughLastNewline (room size rest)).getD (room size rest) := by
  rw [body]
  exact if_neg fun hlength => h ((prefix_room size rest).eq_of_length hlength)

/-- A chunk that does not end the text takes all the room that is for it and holds no newline,
or ends after the last newline of that room. -/
theorem body_cases (h : body size rest ≠ rest) :
    (body size rest = room size rest ∧ '\n' ∉ body size rest) ∨
      (body size rest).getLast? = some '\n' := by
  have hroom : room size rest ≠ rest := fun heq => h (body_of_room_eq heq)
  rw [body_of_room_ne hroom]
  cases hlast : throughLastNewline (room size rest) with
  | none => exact .inl ⟨rfl, throughLastNewline_eq_none_iff.mp hlast⟩
  | some line => exact .inr (getLast?_of_throughLastNewline hlast)

/-- A chunk begins the room that is for it. -/
theorem body_prefix_room (size : Nat) (rest : List Char) : body size rest <+: room size rest := by
  unfold body
  extract_lets hard
  split
  · exact List.prefix_refl _
  · cases hlast : throughLastNewline (room size rest) with
    | none => exact List.prefix_refl _
    | some line => exact prefix_throughLastNewline hlast

theorem byteLength_body_le_or (size : Nat) (hrest : rest ≠ []) :
    byteLength (body size rest) ≤ size ∨ (body size rest).length = 1 := by
  obtain ⟨more, hmore⟩ := body_prefix_room size rest
  rcases byteLength_room_le_or size rest with hle | hone
  · left
    rw [← hmore, byteLength_append] at hle
    omega
  · right
    have hpos := List.length_pos_iff.mpr (body_ne_nil size hrest)
    rw [← hmore, List.length_append] at hone
    omega

/-- A text that fits is one chunk. -/
theorem body_eq_self (h : byteLength rest ≤ size) : body size rest = rest := by
  refine body_of_room_eq ((prefix_room size rest).eq_of_length_le ?_)
  have hfit := (takeBytes_prefix_room size rest).length_le
  rwa [takeBytes_of_byteLength_le h] at hfit

/-! ### Where the next chunk starts -/

theorem le_byteLength_splitAtLeast {n : Nat} (h : n ≤ byteLength s) :
    n ≤ byteLength (splitAtLeast n s).1 := by
  induction s generalizing n with
  | nil => simpa using h
  | cons c s ih =>
      rcases Nat.eq_zero_or_pos n with rfl | hn
      · exact Nat.zero_le _
      · rw [byteLength_cons] at h
        have hrest := ih (n := n - c.utf8Size) (by omega)
        rw [splitAtLeast_cons hn, byteLength_cons]
        omega

/-- The next chunk shares no more with this one than the overlap. -/
theorem byteLength_le_stride (overlap : Nat) (hne : s ≠ []) :
    byteLength s ≤ byteLength (stride overlap s) + overlap := by
  have hpos := byteLength_pos hne
  have hleast : max (byteLength s - overlap) 1 ≤
      byteLength (splitAtLeast (max (byteLength s - overlap) 1) s).1 :=
    le_byteLength_splitAtLeast (by omega)
  unfold stride
  generalize splitAtLeast (max (byteLength s - overlap) 1) s = p at hleast
  obtain ⟨front, after⟩ := p
  simp only at hleast ⊢
  split
  · exact Nat.le_add_right ..
  · split
    · omega
    · split
      · rw [byteLength_append]
        omega
      · omega

/-! ### From one chunk to the next -/

/-- A text from one chunk to the next and on to its end: what is `before` the chunk, the `step`
from its start to that of the next, the part of it that lies `ahead` of the next, and what
comes `later` than it. -/
structure Turn (s : List Char) (size overlap : Nat) (before step ahead later : List Char) :
    Prop where
  whole : before ++ (step ++ (ahead ++ later)) = s
  chunk : body size (step ++ (ahead ++ later)) = step ++ ahead
  stride : stride overlap (step ++ ahead) = step
  more : later ≠ []

/-- What the next chunk says after the part that lies ahead of it, when it has room for that
and what is `beyond`. -/
def gain (ahead beyond later : List Char) : List Char :=
  if beyond = later then later
  else (throughLastNewline beyond).getD (if ahead.getLast? = some '\n' then [] else beyond)

namespace Turn

variable {overlap : Nat} (h : Turn s size overlap before step ahead later)

include h

theorem body_ne : body size (step ++ (ahead ++ later)) ≠ step ++ (ahead ++ later) := by
  intro heq
  rw [h.chunk, ← List.append_assoc] at heq
  exact h.more (List.append_right_eq_self.mp heq.symm)

theorem chunk_ne_nil : step ++ ahead ≠ [] := by
  rw [← h.chunk]
  exact body_ne_nil size fun hnil => h.more (by simp_all)

theorem step_ne_nil : step ≠ [] := by
  rw [← h.stride]
  exact List.length_pos_iff.mp (stride_length_pos overlap h.chunk_ne_nil)

/-- What lies ahead of the next chunk ends with a newline if it holds one. -/
theorem ends (hmem : '\n' ∈ step ++ ahead) : (step ++ ahead).getLast? = some '\n' := by
  rcases body_cases h.body_ne with ⟨-, hno⟩ | hlast
  · rw [h.chunk] at hno
    exact absurd hmem hno
  · rwa [h.chunk] at hlast

/-- **The room of the next chunk** takes what lies ahead of it. -/
theorem exists_beyond : ∃ beyond, room size (ahead ++ later) = ahead ++ beyond := by
  have hchunk := body_prefix_room size (step ++ (ahead ++ later))
  rw [h.chunk] at hchunk
  have hgrows := hchunk.trans (room_prefix_append ((List.prefix_append step ahead).trans hchunk))
  obtain ⟨beyond, hbeyond⟩ := (List.prefix_append_right_inj step).mp hgrows
  exact ⟨beyond, hbeyond.symm⟩

/-- **What the next chunk says.** -/
theorem body_eq (hahead : ahead ≠ []) (hroom : room size (ahead ++ later) = ahead ++ beyond) :
    body size (ahead ++ later) = ahead ++ gain ahead beyond later := by
  unfold gain
  split
  · next heq =>
      subst heq
      exact body_of_room_eq hroom
  · next hne =>
      have hrest : room size (ahead ++ later) ≠ ahead ++ later := by
        rw [hroom]
        exact fun heq => hne (List.append_cancel_left heq)
      rw [body_of_room_ne hrest, hroom, throughLastNewline_append]
      cases hlast : throughLastNewline beyond with
      | some line => rfl
      | none =>
          by_cases hend : ahead.getLast? = some '\n'
          · simp [throughLastNewline_of_getLast? hend, hend]
          · have hno : '\n' ∉ ahead := by
              intro hmem
              have hends := h.ends (List.mem_append_right step hmem)
              rw [List.getLast?_append_of_ne_nil step hahead] at hends
              exact hend hends
            simp [throughLastNewline_eq_none_iff.mpr hno, hend]

/-- **No chunk ends before the one before it.** -/
theorem ahead_prefix_body : ahead <+: body size (ahead ++ later) := by
  by_cases hahead : ahead = []
  · exact hahead ▸ List.nil_prefix
  · obtain ⟨beyond, hroom⟩ := h.exists_beyond
    exact ⟨_, (h.body_eq hahead hroom).symm⟩

end Turn

/-! ### All chunks of a text -/

/-- The chunk that is cut from the `rest` of a text. -/
def cut (size index : Nat) (before rest : List Char) : Chunk :=
  ⟨index, byteLength before, String.ofList (body size rest)⟩

theorem stop_cut (size index : Nat) (before rest : List Char) :
    (cut size index before rest).stop = byteLength before + byteLength (body size rest) :=
  stop_mk ..

/-- What is left of a text has no chunk, or is the last one, or a turn leads from its first
chunk to the next. -/
theorem chunksFrom_cases (size overlap index : Nat) (before rest : List Char) :
    (rest = [] ∧ chunksFrom size overlap index (byteLength before) rest = []) ∨
    (rest ≠ [] ∧ body size rest = rest ∧
      chunksFrom size overlap index (byteLength before) rest = [cut size index before rest]) ∨
    ∃ step ahead later, rest = step ++ (ahead ++ later) ∧
      Turn (before ++ rest) size overlap before step ahead later ∧
      chunksFrom size overlap index (byteLength before) rest =
        cut size index before rest ::
          chunksFrom size overlap (index + 1) (byteLength (before ++ step)) (ahead ++ later) := by
  by_cases hrest : rest = []
  · subst hrest
    exact .inl ⟨rfl, by rw [chunksFrom, dif_pos rfl]⟩
  · right
    rw [chunksFrom, dif_neg hrest]
    simp only
    split
    · next hlen => exact .inl ⟨hrest, (prefix_body size rest).eq_of_length hlen, rfl⟩
    · next hlen =>
        right
        obtain ⟨ahead, hahead⟩ := prefix_stride overlap (body size rest)
        obtain ⟨later, hlater⟩ := prefix_body size rest
        have hstep := stride_append_drop size overlap rest
        generalize hchunk : body size rest = chunk at hahead hlater hlen hstep
        generalize hnext : stride overlap chunk = step at hahead hstep
        subst hahead hlater
        rw [List.append_assoc] at hchunk hstep hlen ⊢
        have hdrop := List.append_cancel_left hstep
        refine ⟨step, ahead, later, rfl, ⟨rfl, hchunk, hnext, ?_⟩, ?_⟩
        · rintro rfl
          simp at hlen
        · rw [hdrop, byteLength_append, cut, hchunk]

/-- **A text chunk by chunk**: nothing is left of it, or a last chunk, or there is a turn from
one chunk to the next. -/
@[elab_as_elim]
theorem chunks_induction {overlap : Nat} {motive : Nat → List Char → List Char → List Chunk → Prop}
    (index : Nat) (before rest : List Char) (whole : before ++ rest = s)
    (empty : ∀ index before, motive index before [] [])
    (last : ∀ index before rest, before ++ rest = s → rest ≠ [] → body size rest = rest →
      motive index before rest [cut size index before rest])
    (turn : ∀ index before step ahead later more, Turn s size overlap before step ahead later →
      motive (index + 1) (before ++ step) (ahead ++ later)
        (cut size (index + 1) (before ++ step) (ahead ++ later) :: more) →
      motive index before (step ++ (ahead ++ later))
        (cut size index before (step ++ (ahead ++ later)) ::
          cut size (index + 1) (before ++ step) (ahead ++ later) :: more)) :
    motive index before rest (chunksFrom size overlap index (byteLength before) rest) := by
  rcases chunksFrom_cases size overlap index before rest with
    ⟨hnil, hnone⟩ | ⟨hrest, hbody, hone⟩ | ⟨step, ahead, later, hsplit, hturn, hmore⟩
  · rw [hnone, hnil]
    exact empty index before
  · rw [hone]
    exact last index before rest whole hrest hbody
  · rw [whole] at hturn
    have ih := chunks_induction (motive := motive) (index + 1) (before ++ step) (ahead ++ later)
      (by rw [List.append_assoc, hturn.whole]) empty last turn
    rw [hmore, hsplit]
    rcases chunksFrom_cases size overlap (index + 1) (before ++ step) (ahead ++ later) with
      ⟨hnil, -⟩ | ⟨-, -, hnext⟩ | ⟨_, _, _, -, -, hnext⟩
    · exact absurd hnil (List.append_ne_nil_of_right_ne_nil ahead hturn.more)
    · rw [hnext] at ih ⊢
      exact turn index before step ahead later _ hturn ih
    · rw [hnext] at ih ⊢
      exact turn index before step ahead later _ hturn ih
termination_by rest.length
decreasing_by
  have hpos := List.length_pos_iff.mpr hturn.step_ne_nil
  have hlength : (step ++ (ahead ++ later)).length = step.length + (ahead ++ later).length :=
    List.length_append
  rw [hsplit, hlength]
  omega

/-- **What holds wherever a chunk is cut holds of all chunks** of a text. -/
theorem forall_mem_chunksFrom {overlap : Nat} {P : Chunk → Prop}
    (hcut : ∀ index before rest, before ++ rest = s → rest ≠ [] → P (cut size index before rest))
    (index : Nat) (before rest : List Char) (hwhole : before ++ rest = s) :
    ∀ c ∈ chunksFrom size overlap index (byteLength before) rest, P c := by
  refine chunks_induction index before rest hwhole ?empty ?last ?turn
  case empty => simp
  case last =>
    intro index before rest hwhole hrest hbody
    simpa using hcut index before rest hwhole hrest
  case turn =>
    intro index before step ahead later more hturn ih c mem
    rcases List.mem_cons.mp mem with rfl | mem
    · exact hcut index before _ hturn.whole (by simp [hturn.more])
    · exact ih c mem

/-- **What holds at every turn holds of all neighbours** among the chunks of a text. -/
theorem isChain_chunksFrom {overlap : Nat} {R : Chunk → Chunk → Prop}
    (hturn : ∀ index before step ahead later, Turn s size overlap before step ahead later →
      R (cut size index before (step ++ (ahead ++ later)))
        (cut size (index + 1) (before ++ step) (ahead ++ later)))
    (index : Nat) (before rest : List Char) (hwhole : before ++ rest = s) :
    (chunksFrom size overlap index (byteLength before) rest).IsChain R := by
  refine chunks_induction index before rest hwhole ?empty ?last ?turn
  case empty =>
    intros
    exact List.isChain_nil
  case last =>
    intros
    exact List.isChain_singleton _
  case turn =>
    intro index before step ahead later more turn ih
    exact List.isChain_cons_cons.mpr ⟨hturn index before step ahead later turn, ih⟩

/-- The last chunk ends where the text does. -/
theorem stop_of_getLast? {overlap : Nat} (index : Nat) (before rest : List Char)
    (hwhole : before ++ rest = s) :
    ∀ c ∈ (chunksFrom size overlap index (byteLength before) rest).getLast?,
      c.stop = byteLength s := by
  refine chunks_induction index before rest hwhole ?empty ?last ?turn
  case empty => simp
  case last =>
    intro index before rest hwhole hrest hbody c mem
    obtain rfl : cut size index before rest = c := by simpa using mem
    rw [stop_cut, hbody, ← hwhole, byteLength_append]
  case turn =>
    intro index before step ahead later more hturn ih c mem
    rw [List.getLast?_cons_cons] at mem
    exact ih c mem

/-- The first chunk starts where what is left does, if anything is. -/
theorem head?_chunksFrom (size overlap index : Nat) (before rest : List Char) :
    (chunksFrom size overlap index (byteLength before) rest).head? =
      if rest = [] then none else some (cut size index before rest) := by
  rcases chunksFrom_cases size overlap index before rest with
    ⟨hnil, hnone⟩ | ⟨hrest, -, hone⟩ | ⟨step, ahead, later, hsplit, hturn, hmore⟩
  · rw [hnone, if_pos hnil, List.head?_nil]
  · rw [hone, if_neg hrest, List.head?_cons]
  · have hrest : rest ≠ [] := by simp [hsplit, hturn.more]
    rw [hmore, if_neg hrest, List.head?_cons]

/-- A text that fits has one chunk. -/
theorem length_chunksFrom_of_fits (overlap index : Nat) (before : List Char)
    (h : byteLength rest ≤ size) :
    (chunksFrom size overlap index (byteLength before) rest).length ≤ 1 := by
  have hbody : body size rest = rest := body_eq_self h
  rcases chunksFrom_cases size overlap index before rest with
    ⟨-, hnone⟩ | ⟨-, -, hone⟩ | ⟨step, ahead, later, hsplit, hturn, -⟩
  · simp [hnone]
  · simp [hone]
  · rw [hsplit] at hbody
    exact absurd hbody hturn.body_ne

/-- A chunk is the stretch of the text from its offset to where it ends. -/
theorem slice?_cut (size index : Nat) (before rest : List Char) :
    slice? (before ++ rest) (cut size index before rest).offset (cut size index before rest).stop =
      some (cut size index before rest).text.toList := by
  obtain ⟨later, hlater⟩ := prefix_body size rest
  have hslice := slice?_append before (body size rest) later
  rw [List.append_assoc, hlater] at hslice
  rw [stop_cut, cut, String.toList_ofList, hslice]

/-- What a chunk that is not the last and the next one have to do with each other. -/
structure Follows (overlap : Nat) (a b : Chunk) : Prop where
  later : a.offset < b.offset
  reaches : b.offset ≤ a.stop
  shares : a.stop - b.offset ≤ overlap
  onward : a.stop ≤ b.stop
  wholeLines : '\n' ∈ a.text.toList → a.text.toList.getLast? = some '\n'

theorem Turn.follows {overlap : Nat} (h : Turn s size overlap before step ahead later)
    (index : Nat) :
    Follows overlap (cut size index before (step ++ (ahead ++ later)))
      (cut size (index + 1) (before ++ step) (ahead ++ later)) := by
  obtain ⟨more, hmore⟩ := h.ahead_prefix_body
  have hstep := byteLength_pos h.step_ne_nil
  have hshares := byteLength_le_stride overlap h.chunk_ne_nil
  have hstart : (cut size (index + 1) (before ++ step) (ahead ++ later)).offset =
      byteLength before + byteLength step := byteLength_append before step
  have hstop := stop_cut size index before (step ++ (ahead ++ later))
  have hnext := stop_cut size (index + 1) (before ++ step) (ahead ++ later)
  rw [h.stride] at hshares
  rw [h.chunk] at hstop
  rw [← hmore] at hnext
  simp only [byteLength_append] at hshares hstop hnext
  constructor
  · rw [hstart]
    exact Nat.lt_add_of_pos_right hstep
  · omega
  · omega
  · omega
  · intro hmem
    simp only [cut, String.toList_ofList, h.chunk] at hmem ⊢
    exact h.ends hmem

end Chunk

/-- The shape of the chunks of a text: they are counted, each is the stretch of the text at its
offset, they span the text, each keeps to the size unless it is one character, and each
follows the one before it. Where there is more than one, the size is less than the bytes of the
text, so no sum of an offset and the size is twice as many. -/
structure Shaped (text : String) (size overlap : Nat) (cs : List Chunk) : Prop where
  counted : cs.map (·.index) = List.range cs.length
  sliced : ∀ c ∈ cs, c.text ≠ "" ∧ slice? text.toList c.offset c.stop = some c.text.toList
  empty : cs = [] ↔ text = ""
  starts : ∀ c ∈ cs.head?, c.offset = 0
  ends : ∀ c ∈ cs.getLast?, c.stop = text.utf8ByteSize
  bounded : ∀ c ∈ cs, c.text.utf8ByteSize ≤ max size 1 ∨ c.text.length = 1
  roomy : cs.length ≤ 1 ∨ max size 1 < text.utf8ByteSize
  chained : cs.IsChain (Chunk.Follows overlap)

/-- **The shape of the chunks of a text**, for every text, size and overlap; and finding them
by positions comes to an end, without a cut inside a character. -/
theorem chunks_shaped (text : String) (size overlap : Nat) :
    chunks? text size overlap = some (chunks text size overlap) ∧
      Shaped text size overlap (chunks text size overlap) := by
  have hhead : (chunks text size overlap).head? =
      if text.toList = [] then none else some (Chunk.cut (max size 1) 0 [] text.toList) :=
    Chunk.head?_chunksFrom (max size 1) overlap 0 [] text.toList
  refine ⟨Chunk.chunksFrom?_append (max size 1) overlap 0 [] text.toList, ?_⟩
  constructor
  · have hindex := Chunk.map_index_chunksFrom (max size 1) overlap 0 0 text.toList
    rwa [← List.range_eq_range'] at hindex
  · refine Chunk.forall_mem_chunksFrom (s := text.toList) ?_ 0 [] text.toList rfl
    intro index before rest hwhole hrest
    constructor
    · intro hnil
      exact Chunk.body_ne_nil (max size 1) hrest (String.ofList_eq_empty_iff.mp hnil)
    · rw [← hwhole]
      exact Chunk.slice?_cut (max size 1) index before rest
  · rw [← List.head?_eq_none_iff, hhead, ← String.toList_eq_nil_iff]
    simp
  · intro c mem
    rw [hhead] at mem
    split at mem
    · cases mem
    · obtain rfl := Option.some.inj mem
      rfl
  · intro c mem
    rw [← byteLength_toList]
    exact Chunk.stop_of_getLast? (s := text.toList) 0 [] text.toList rfl c mem
  · refine Chunk.forall_mem_chunksFrom (s := text.toList) ?_ 0 [] text.toList rfl
    intro index before rest hwhole hrest
    rw [Chunk.cut, byteLength_ofList, String.length_ofList]
    exact Chunk.byteLength_body_le_or (max size 1) hrest
  · rcases Nat.lt_or_ge (max size 1) text.utf8ByteSize with hlt | hge
    · exact .inr hlt
    · left
      rw [← byteLength_toList] at hge
      exact Chunk.length_chunksFrom_of_fits overlap 0 [] hge
  · refine Chunk.isChain_chunksFrom (s := text.toList) ?_ 0 [] text.toList rfl
    intro index before step ahead later turn
    exact turn.follows index

end Workbench.Text
