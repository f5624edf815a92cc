/-
# Chunks, with every step checked

The chunks of a text are found once more by positions, with words that may overflow. A
position of a text that is in memory is below half of what a word can count, and so is the
size of a chunk that a configuration can ask for: the end of a chunk is sought where
their sum says, and only then drawn back to the end of the text.

* `Checked.chunks` — the chunks of a text, with every step checked.
* `Checked.chunks_eq` — **no step of the way is out of range.**
-/

import Workbench.Proofs.Checked.Word
import Workbench.Proofs.Text.Chunking

namespace Workbench.Checked

open Workbench.Text

/-- The position of the last newline of a text. -/
def lastNewline? (s : List Char) : Option Nat :=
  (Chunk.throughLastNewline s).map fun line => byteLength line - 1

/-- The position of the first newline of a text. -/
def firstNewline? (s : List Char) : Option Nat :=
  (Chunk.throughFirstNewline s).map fun line => byteLength line - 1

/-- The position up to which there is room for the chunk that starts at `start`. -/
def roomStop (s : List Char) (size start : Nat) : Checked Nat := do
  let reach ← add start size
  let last ← floor s (min reach (byteLength s))
  if last ≤ start then
    let second ← add start 1
    ceil s second
  else return last

/-- The position at which the chunk that starts at `start` ends. -/
def stopAt (s : List Char) (size start : Nat) : Checked Nat := do
  let hard ← roomStop s size start
  if hard = byteLength s then return hard
  else
    let stretch ← slice s start hard
    match lastNewline? stretch with
    | some i =>
        let newline ← add start i
        add newline 1
    | none => return hard

/-- The position at which the chunk after the one from `start` to `stop` starts. -/
def nextStart (s : List Char) (overlap start stop : Nat) : Checked Nat := do
  let second ← add start 1
  let target ← ceil s (max (stop - overlap) second)
  if stop ≤ target then return stop
  else
    let before ← sub target 1
    let byte ← item (Octets.ofText (String.ofList s)) before
    if byte = 0x0A then return target
    else
      let stretch ← slice s target stop
      match firstNewline? stretch with
      | some i =>
          let newline ← add target i
          add newline 1
      | none => return target

/-! ### Chunks move on -/

theorem lt_of_roomStop {s : List Char} {size start stop : Nat} (hs : start < byteLength s)
    (h : roomStop s size start = .ok stop) : start < stop := by
  obtain ⟨reach, -, h⟩ := Attempt.bind_eq_ok_iff.mp h
  obtain ⟨last, -, h⟩ := Attempt.bind_eq_ok_iff.mp h
  split at h
  · obtain ⟨second, hsecond, h⟩ := Attempt.bind_eq_ok_iff.mp h
    have := add_of_eq_ok hsecond
    exact lt_of_ceil hs (by omega) h
  · have := Except.ok.inj h
    omega

theorem lt_of_stopAt {s : List Char} {size start stop : Nat} (hs : start < byteLength s)
    (h : stopAt s size start = .ok stop) : start < stop := by
  obtain ⟨hard, hhard, h⟩ := Attempt.bind_eq_ok_iff.mp h
  have hlt := lt_of_roomStop hs hhard
  split at h
  · exact Except.ok.inj h ▸ hlt
  · obtain ⟨stretch, -, h⟩ := Attempt.bind_eq_ok_iff.mp h
    split at h
    · obtain ⟨newline, hnewline, h⟩ := Attempt.bind_eq_ok_iff.mp h
      have := add_of_eq_ok hnewline
      have := add_of_eq_ok h
      omega
    · exact Except.ok.inj h ▸ hlt

theorem lt_of_nextStart {s : List Char} {overlap start stop next : Nat}
    (hs : start < byteLength s) (hstop : start < stop)
    (h : nextStart s overlap start stop = .ok next) : start < next := by
  obtain ⟨second, hsecond, h⟩ := Attempt.bind_eq_ok_iff.mp h
  obtain ⟨target, htarget, h⟩ := Attempt.bind_eq_ok_iff.mp h
  have := add_of_eq_ok hsecond
  have hlt : start < target := lt_of_ceil hs (by omega) htarget
  split at h
  · exact Except.ok.inj h ▸ hstop
  · obtain ⟨before, -, h⟩ := Attempt.bind_eq_ok_iff.mp h
    obtain ⟨byte, -, h⟩ := Attempt.bind_eq_ok_iff.mp h
    split at h
    · exact Except.ok.inj h ▸ hlt
    · obtain ⟨stretch, -, h⟩ := Attempt.bind_eq_ok_iff.mp h
      split at h
      · obtain ⟨newline, hnewline, h⟩ := Attempt.bind_eq_ok_iff.mp h
        have := add_of_eq_ok hnewline
        have := add_of_eq_ok h
        omega
      · exact Except.ok.inj h ▸ hlt

/-- The chunks from position `start` on. -/
def chunksFrom (s : List Char) (size overlap index start : Nat) : Checked (List Chunk) :=
  if _hs : start < byteLength s then
    match _hstop : stopAt s size start with
    | .error trap => .error trap
    | .ok stop =>
        match slice s start stop with
        | .error trap => .error trap
        | .ok piece =>
            let here : Chunk := ⟨index, start, String.ofList piece⟩
            if stop = byteLength s then .ok [here]
            else match _hnext : nextStart s overlap start stop with
              | .error trap => .error trap
              | .ok next => (chunksFrom s size overlap (index + 1) next).map (here :: ·)
  else .ok []
termination_by byteLength s - start
decreasing_by
  have := lt_of_nextStart _hs (lt_of_stopAt _hs _hstop) _hnext
  omega

/-- One round of finding chunks. -/
theorem chunksFrom_step {s piece : List Char} {size overlap start stop : Nat}
    (hs : start < byteLength s) (hstop : stopAt s size start = .ok stop)
    (hpiece : slice s start stop = .ok piece) (index : Nat) :
    chunksFrom s size overlap index start =
      if stop = byteLength s then .ok [⟨index, start, String.ofList piece⟩]
      else nextStart s overlap start stop >>= fun next =>
        (chunksFrom s size overlap (index + 1) next).map
          (⟨index, start, String.ofList piece⟩ :: ·) := by
  rw [chunksFrom, dif_pos hs]
  split
  · next h => simp [hstop] at h
  · next stop' h =>
    obtain rfl : stop = stop' := Except.ok.inj (hstop.symm.trans h)
    rw [hpiece]
    simp only
    split
    · rfl
    · split
      · next hnext => rw [hnext, Attempt.error_bind]
      · next hnext => rw [hnext, Attempt.ok_bind]

/-- The chunks of a text. A size of 0 counts as 1. -/
def chunks (text : String) (size overlap : Nat) : Checked (List Chunk) :=
  chunksFrom text.toList (max size 1) overlap 0 0

/-! ### Every step is in range -/

theorem slice?_isInfix {s stretch : List Char} {i j : Nat} (h : slice? s i j = some stretch) :
    stretch <:+: s := by
  have hdrop : ∀ {n : Nat} {s rest : List Char}, dropBytes? n s = some rest → rest <:+ s := by
    intro n s rest h
    fun_induction dropBytes? n s with
    | case1 s => exact Option.some.inj h ▸ List.suffix_refl _
    | case2 => cases h
    | case3 n c s hfits ih => exact (ih h).trans (List.suffix_cons c s)
    | case4 => cases h
  unfold slice? at h
  split at h
  · obtain ⟨rest, hrest, h⟩ := Option.bind_eq_some_iff.mp h
    obtain ⟨after, -, h⟩ := Option.bind_eq_some_iff.mp h
    obtain rfl := Option.some.inj h
    exact (List.take_prefix _ _).isInfix.trans (hdrop hrest).isInfix
  · cases h

theorem byteLength_le_of_isInfix {s t : List Char} (h : t <:+: s) :
    byteLength t ≤ byteLength s := by
  obtain ⟨before, after, rfl⟩ := h
  rw [byteLength_append, byteLength_append]
  omega

theorem throughFirstNewline_ne_nil {s line : List Char}
    (h : Chunk.throughFirstNewline s = some line) : line ≠ [] := by
  cases s with
  | nil => cases h
  | cons c rest =>
    unfold Chunk.throughFirstNewline at h
    split at h
    · exact Option.some.inj h ▸ List.cons_ne_nil c []
    · obtain ⟨more, -, rfl⟩ := Option.map_eq_some_iff.mp h
      exact List.cons_ne_nil c more

section Ranges

variable {s : List Char} {size overlap start stop next : Nat} (fits : byteLength s < 2 ^ 63)
  (hs : start < byteLength s)

include fits

/-- The position after a newline that is found in a stretch of the text. -/
theorem after_newline {stretch line : List Char} {i : Nat} (hstretch : stretch <:+: s)
    (hline : line <+: stretch) (hne : line ≠ []) (hi : i < 2 ^ 63) :
    (do let newline ← add i (byteLength line - 1); add newline 1) =
      (.ok (i + byteLength line) : Checked Nat) := by
  have hpos := byteLength_pos hne
  have hle := Nat.le_trans (byteLength_mono hline) (byteLength_le_of_isInfix hstretch)
  rw [add_eq (by omega), Attempt.ok_bind, add_eq (by omega)]
  congr 1
  omega

include hs

theorem roomStop_eq (hsize : size < 2 ^ 63) :
    roomStop s size start = .ok (Chunk.roomStop s size start) := by
  unfold roomStop Chunk.roomStop
  simp only
  rw [add_eq (by omega), Attempt.ok_bind, floor_eq, Attempt.ok_bind]
  split
  · rw [add_eq (by omega), Attempt.ok_bind, ceil_eq fits]
  · rfl

theorem stopAt_eq (hsize : size < 2 ^ 63) (h : Chunk.stopAt? s size start = some stop) :
    stopAt s size start = .ok stop := by
  unfold Chunk.stopAt? at h
  unfold stopAt
  simp only at h
  rw [roomStop_eq fits hs hsize, Attempt.ok_bind]
  split at h
  · next hend => rw [if_pos hend, Option.some.inj h, Attempt.pure_eq]
  · next hend =>
    rw [if_neg hend]
    split at h
    · cases h
    · next stretch hstretch =>
      rw [slice_eq hstretch, Attempt.ok_bind, lastNewline?]
      split at h
      · next line hline =>
        rw [hline, ← Option.some.inj h]
        exact after_newline fits (slice?_isInfix hstretch) (Chunk.prefix_throughLastNewline hline)
          (Chunk.throughLastNewline_ne_nil hline) (by omega)
      · next hline =>
        rw [hline, Option.some.inj h]
        rfl

theorem nextStart_eq (h : Chunk.nextStart? s overlap start stop = some next) :
    nextStart s overlap start stop = .ok next := by
  have hlow := Chunk.lt_ceil hs (n := max (stop - overlap) (start + 1)) (by omega)
  unfold Chunk.nextStart? at h
  unfold nextStart
  simp only at h
  rw [add_eq (by omega), Attempt.ok_bind, ceil_eq fits, Attempt.ok_bind]
  generalize htarget : Position.ceil s (max (stop - overlap) (start + 1)) = target at h hlow ⊢
  split at h
  · next hend => rw [if_pos hend, Option.some.inj h, Attempt.pure_eq]
  · next hend =>
    rw [if_neg hend, sub_eq (by omega), Attempt.ok_bind]
    split at h
    · cases h
    · next byte hbyte =>
      rw [item_eq hbyte, Attempt.ok_bind]
      split at h
      · next hnewline => rw [if_pos hnewline, Option.some.inj h, Attempt.pure_eq]
      · next hnewline =>
        rw [if_neg hnewline]
        split at h
        · cases h
        · next stretch hstretch =>
          have hinside : target ≤ byteLength s := by
            rw [← htarget, Position.ceil_eq]
            exact byteLength_mono ⟨_, splitAtLeast_append _ s⟩
          rw [slice_eq hstretch, Attempt.ok_bind, firstNewline?]
          split at h
          · next line hline =>
            rw [hline, ← Option.some.inj h]
            exact after_newline fits (slice?_isInfix hstretch)
              (Chunk.prefix_throughFirstNewline hline) (throughFirstNewline_ne_nil hline) (by omega)
          · next hline =>
            rw [hline, Option.some.inj h]
            rfl

end Ranges

theorem chunksFrom_eq {s : List Char} {size overlap index start : Nat} {cs : List Chunk}
    (fits : byteLength s < 2 ^ 63) (hsize : size < 2 ^ 63)
    (h : Chunk.chunksFrom? s size overlap index start = some cs) :
    chunksFrom s size overlap index start = .ok cs := by
  fun_induction Chunk.chunksFrom? s size overlap index start generalizing cs with
  | case1 => cases h
  | case2 => cases h
  | case3 index start hs piece here hstop =>
    rename_i hpiece
    rw [chunksFrom_step hs (stopAt_eq fits hs hsize hstop) (slice_eq hpiece), if_pos rfl,
      ← Option.some.inj h]
  | case4 => cases h
  | case5 index start hs stop hstop piece hpiece here hend next hnext =>
    rename_i ih
    obtain ⟨later, hlater, rfl⟩ := Option.map_eq_some_iff.mp h
    rw [chunksFrom_step hs (stopAt_eq fits hs hsize hstop) (slice_eq hpiece), if_neg hend,
      nextStart_eq fits hs hnext, Attempt.ok_bind, ih hlater]
    rfl
  | case6 index start hs =>
    rw [chunksFrom, dif_neg hs, Option.some.inj h]

/-- **Every step of chunking is in range**, for a text in memory and a size that a
configuration can ask for. -/
theorem chunks_eq {text : String} {size : Nat} (fits : text.utf8ByteSize < 2 ^ 63)
    (hsize : size < 2 ^ 63) (overlap : Nat) :
    chunks text size overlap = .ok (Text.chunks text size overlap) := by
  rw [← byteLength_toList] at fits
  exact chunksFrom_eq fits (by omega)
    (Chunk.chunksFrom?_append (max size 1) overlap 0 [] text.toList)

end Workbench.Checked
