/-
# Rows that are read back

The row of a chunk holds all of the chunk: its kind as a word, its numbers with a sign, and its
vector as bytes, four for every component. All are read back as they were, so the chunks that
were written to a database are those that are read from it.

* `Single.ofOctets_toOctets`, `Embedding.ofBlob?_toBlob` — numbers and vectors as bytes.
* `StoredChunk.chunk_row` — **a row that was written is read back.**
* `mapM_chunk_row` — so are all rows of a database.
-/

import Workbench.Collection.Store

namespace Workbench

open Workbench.Text Workbench.Code Workbench.Collection

/-! ### Numbers and vectors -/

namespace Vector

/-- The bytes of a word, each shifted to where it was taken from, make up the word. -/
theorem word_of_bytes (x : UInt32) :
    x.toUInt8.toUInt32 ||| ((x >>> 8).toUInt8.toUInt32 <<< 8) |||
      ((x >>> 16).toUInt8.toUInt32 <<< 16) ||| ((x >>> 24).toUInt8.toUInt32 <<< 24) = x := by
  apply UInt32.toBitVec_inj.mp
  apply BitVec.eq_of_getLsbD_eq
  intro i hi
  have h8 : (8 : UInt32).toBitVec % 32 = 8#32 := by decide
  have h16 : (16 : UInt32).toBitVec % 32 = 16#32 := by decide
  have h24 : (24 : UInt32).toBitVec % 32 = 24#32 := by decide
  have s8 : (8#32).toNat = 8 := rfl
  have s16 : (16#32).toNat = 16 := rfl
  have s24 : (24#32).toNat = 24 := rfl
  simp only [UInt32.toBitVec_or, UInt32.toBitVec_shiftLeft, UInt8.toBitVec_toUInt32,
    UInt32.toBitVec_toUInt8, UInt32.toBitVec_shiftRight, BitVec.getLsbD_or, h8, h16, h24,
    BitVec.shiftLeft_eq', BitVec.ushiftRight_eq', s8, s16, s24, BitVec.getLsbD_shiftLeft,
    BitVec.getLsbD_setWidth, BitVec.getLsbD_ushiftRight, hi, decide_true, Bool.true_and]
  -- The bit is in the byte that has it among its eight, and in none of the others.
  have hback (k : Nat) (hk : k ≤ i) : k + (i - k) = i := Nat.add_sub_cancel' hk
  grind

theorem Single.ofOctets_toOctets (x : Single) :
    Single.ofOctets x.bits.toUInt8 (x.bits >>> 8).toUInt8 (x.bits >>> 16).toUInt8
      (x.bits >>> 24).toUInt8 = x :=
  congrArg Single.mk (word_of_bytes x.bits)

theorem Embedding.ofBlob?_toBlob (a : Embedding) :
    Embedding.ofBlob? (Embedding.toBlob a) = some a := by
  induction a with
  | nil => rfl
  | cons x a ih =>
      have hblob : Embedding.toBlob (x :: a) = x.toOctets ++ Embedding.toBlob a := rfl
      rw [hblob, Single.toOctets]
      simp only [List.cons_append, List.nil_append, Embedding.ofBlob?, ih, Option.map_some,
        Single.ofOctets_toOctets]

end Vector

/-! ### Rows -/

theorem Code.UnitKind.ofText?_text (kind : UnitKind) : UnitKind.ofText? kind.text = some kind := by
  cases kind <;> rfl

namespace Collection

/-- **A row that was written is read back.** -/
theorem StoredChunk.chunk_row (c : StoredChunk) : c.row.chunk = .ok c := by
  simp only [Row.chunk, StoredChunk.row, Vector.Embedding.ofBlob?_toBlob, UnitKind.ofText?_text,
    UInt64.toUInt64_toInt64]

theorem mapM_chunk_row (chunks : List StoredChunk) :
    (chunks.map (·.row)).mapM Row.chunk = .ok chunks := by
  induction chunks with
  | nil => rfl
  | cons c chunks ih =>
      rw [List.map_cons, List.mapM_cons, c.chunk_row, ih]
      rfl

end Collection

end Workbench
