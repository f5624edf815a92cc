/-
# Overlapping chunks

A text is cut into chunks of at most `size` bytes. A chunk ends after its last
newline when it holds one; the next chunk starts inside the last `overlap`
bytes of this one, at a line start when there is one there. So neighbours share
a little text, nothing between them is lost, and the text can be put together
again from the chunks in any order.

* `chunks` — the chunks of a text, with index and byte offset.
* `reassemble` — the text of a list of chunks; none when a chunk's offset says
  that it shares half a character with what came before it.
-/

import Workbench.Text.Clip

namespace Workbench.Text

/-- A stretch of a text: which one it is, the byte at which it starts, and what
it says. -/
structure Chunk where
  index : Nat
  offset : Nat
  text : String
  deriving Repr, DecidableEq

namespace Chunk

/-- The beginning of a text up to and including its last newline. -/
def throughLastNewline : List Char → Option (List Char)
  | [] => none
  | c :: rest =>
      match throughLastNewline rest with
      | some line => some (c :: line)
      | none => if c = '\n' then some [c] else none

/-- The beginning of a text up to and including its first newline. -/
def throughFirstNewline : List Char → Option (List Char)
  | [] => none
  | c :: rest =>
      if c = '\n' then some [c] else (throughFirstNewline rest).map (c :: ·)

/-- The characters that fit into `size` bytes; a first character that does not
fit comes alone. -/
def room (size : Nat) (rest : List Char) : List Char :=
  match takeBytes size rest with
  | [] => rest.take 1
  | fitting => fitting

/-- The text of the chunk that starts where `rest` starts. -/
def body (size : Nat) (rest : List Char) : List Char :=
  let hard := room size rest
  if hard.length = rest.length then hard
  else (throughLastNewline hard).getD hard

/-- What lies between the start of a chunk and the start of the next one. -/
def stride (overlap : Nat) (chunk : List Char) : List Char :=
  let (before, after) := splitAtLeast (max (byteLength chunk - overlap) 1) chunk
  if after = [] then chunk
  else if before.getLast? = some '\n' then before
  else match throughFirstNewline after with
    | some line => before ++ line
    | none => before

theorem room_ne_nil (size : Nat) {rest : List Char} (h : rest ≠ []) : room size rest ≠ [] := by
  unfold room
  split
  · cases rest with
    | nil => exact absurd rfl h
    | cons c rest => simp
  · rename_i hne
    intro hn
    exact hne hn

theorem throughLastNewline_ne_nil {s line : List Char} (h : throughLastNewline s = some line) :
    line ≠ [] := by
  cases s with
  | nil => simp [throughLastNewline] at h
  | cons c rest =>
      unfold throughLastNewline at h
      split at h
      · simp at h; simp [← h]
      · split at h
        · simp at h; simp [← h]
        · simp at h

theorem body_ne_nil (size : Nat) {rest : List Char} (h : rest ≠ []) : body size rest ≠ [] := by
  unfold body
  dsimp only
  split
  · exact room_ne_nil size h
  · cases hl : throughLastNewline (room size rest) with
    | none => simpa using room_ne_nil size h
    | some line => simpa using throughLastNewline_ne_nil hl

theorem splitAtLeast_fst_ne_nil (size : Nat) {s : List Char} (hs : s ≠ []) (hsize : 0 < size) :
    (splitAtLeast size s).1 ≠ [] := by
  cases size with
  | zero => simp at hsize
  | succ n =>
      cases s with
      | nil => exact absurd rfl hs
      | cons c rest => simp [splitAtLeast]

/-- The next chunk starts later than this one. -/
theorem stride_length_pos (overlap : Nat) {chunk : List Char} (h : chunk ≠ []) :
    0 < (stride overlap chunk).length := by
  have hne := splitAtLeast_fst_ne_nil (max (byteLength chunk - overlap) 1) h (by omega)
  unfold stride
  generalize splitAtLeast (max (byteLength chunk - overlap) 1) chunk = p at hne
  obtain ⟨before, after⟩ := p
  dsimp only at hne ⊢
  have hpos := List.length_pos_iff.mpr hne
  split
  · exact List.length_pos_iff.mpr h
  · split
    · exact hpos
    · split
      · simp only [List.length_append]; omega
      · exact hpos

/-- The chunks of `rest`, the part of a text from byte `offset` on. -/
def chunksFrom (size overlap index offset : Nat) (rest : List Char) : List Chunk :=
  if _h : rest = [] then []
  else
    let chunk := body size rest
    let here : Chunk := ⟨index, offset, String.ofList chunk⟩
    if chunk.length = rest.length then [here]
    else
      let step := stride overlap chunk
      here :: chunksFrom size overlap (index + 1) (offset + byteLength step) (rest.drop step.length)
termination_by rest.length
decreasing_by
  have hpos : 0 < rest.length := List.length_pos_iff.mpr _h
  have := stride_length_pos overlap (body_ne_nil size _h)
  simp only [List.length_drop]
  omega

end Chunk

/-- The chunks of a text. A size of 0 counts as 1. -/
def chunks (text : String) (size overlap : Nat) : List Chunk :=
  Chunk.chunksFrom (max size 1) overlap 0 0 text.toList

namespace Chunk

/-- The byte at which the chunk ends. -/
def stop (chunk : Chunk) : Nat :=
  chunk.offset + chunk.text.utf8ByteSize

/-- What each chunk adds to the `covered` bytes before it. A chunk that adds
nothing is passed over. -/
def additions? (covered : Nat) : List Chunk → Option (List Char)
  | [] => some []
  | chunk :: rest =>
      if chunk.stop ≤ covered then additions? covered rest
      else do
        let new ← dropBytes? (covered - chunk.offset) chunk.text.toList
        let more ← additions? chunk.stop rest
        return new ++ more

end Chunk

/-- Puts chunks together in the order of their indices, leaving out what a chunk
shares with the ones before it. -/
def reassemble? (cs : List Chunk) : Option String :=
  (Chunk.additions? 0 (cs.mergeSort fun a b => a.index ≤ b.index)).map String.ofList

end Workbench.Text
