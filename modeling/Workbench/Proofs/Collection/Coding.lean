/-
# Vectors as bytes

The stored form of a vector is a code for it: every vector has one, and bytes are the stored
form of one vector, or of none if they do not come in fours. The code is that of numbers to
the base 256 with the lowest digit first, for whatever bits there are: the bits of a number
that is none and the sign of a zero are kept like all others.

* `Single.getElem?_toOctets` — the bytes of a number are its digits.
* `Embedding.getElem?_toBlob` — where they stand in the stored form of a vector.
* `Embedding.blob_bijective` — **vectors and bytes in fours stand for one another.**
-/

import Mathlib
import Workbench.Proofs.Collection.Damage

namespace Workbench.Vector

open Workbench.Text

/-! ### Numbers -/

/-- The byte that a shift brings to the end of a word. -/
theorem toUInt8_shifted (word shift : UInt32) (h : shift.toNat < 32) :
    (word >>> shift).toUInt8 = UInt8.ofNat (word.toNat / 2 ^ shift.toNat) := by
  apply UInt8.toNat_inj.mp
  rw [UInt32.toNat_toUInt8, UInt8.toNat_ofNat', UInt32.toNat_shiftRight, Nat.mod_eq_of_lt h,
    Nat.shiftRight_eq_div_pow]

/-- **The bytes of a number** are the digits of its bits to the base 256, the lowest first. -/
theorem Single.getElem?_toOctets (x : Single) (k : Fin 4) :
    x.toOctets[k.val]? = some (UInt8.ofNat (x.bits.toNat / 256 ^ k.val)) := by
  match k with
  | 0 =>
      have hlowest : x.bits.toUInt8 = UInt8.ofNat (x.bits.toNat / 1) := by
        rw [Nat.div_one]
        rfl
      exact congrArg some hlowest
  | 1 => exact congrArg some (toUInt8_shifted x.bits 8 (by decide))
  | 2 => exact congrArg some (toUInt8_shifted x.bits 16 (by decide))
  | 3 => exact congrArg some (toUInt8_shifted x.bits 24 (by decide))

/-! ### Vectors -/

namespace Embedding

/-- **The bytes of a component** stand after four for each of those before it. -/
theorem getElem?_toBlob (a : Embedding) (i : Nat) (k : Fin 4) :
    (toBlob a)[4 * i + k.val]? =
      a[i]?.map fun x => UInt8.ofNat (x.bits.toNat / 256 ^ k.val) := by
  induction a generalizing i with
  | nil => rfl
  | cons x a ih =>
      have hblob : toBlob (x :: a) = x.toOctets ++ toBlob a := rfl
      have hfour : x.toOctets.length = 4 := rfl
      rw [hblob]
      cases i with
      | zero =>
          rw [List.getElem?_append_left (by omega), Nat.mul_zero, Nat.zero_add,
            x.getElem?_toOctets k]
          rfl
      | succ i =>
          have hrest : 4 * (i + 1) + k.val - x.toOctets.length = 4 * i + k.val := by omega
          rw [List.getElem?_append_right (by omega), hrest, ih i, List.getElem?_cons_succ]

/-- **Vectors and bytes in fours stand for one another.** Whatever the bits of its components
are, a vector is read back from its stored form, in which the digits of their bits stand one
after the other, the lowest of each first. Bytes are no vector exactly when they do not come in
fours, and otherwise they are the stored form of the vector that they are read as. -/
theorem blob_bijective :
    (∀ a : Embedding, ofBlob? (toBlob a) = some a ∧
      ∀ (i : Nat) (k : Fin 4), (toBlob a)[4 * i + k.val]? =
        a[i]?.map fun x => UInt8.ofNat (x.bits.toNat / 256 ^ k.val)) ∧
    ∀ blob : Octets, (ofBlob? blob = none ↔ ¬ 4 ∣ blob.length) ∧
      ∀ a, ofBlob? blob = some a ↔ toBlob a = blob := by
  constructor
  · intro a
    exact ⟨ofBlob?_toBlob a, getElem?_toBlob a⟩
  · intro blob
    exact ⟨ofBlob?_eq_none_iff, fun a => ofBlob?_eq_some_iff⟩

/-- A number that is none, negative zero, and a byte too many. -/
example : ofBlob? [1, 0, 0xC0, 0x7F, 0, 0, 0, 0x80] = some [⟨0x7FC00001⟩, .negativeZero] ∧
    ofBlob? [1, 0, 0xC0, 0x7F, 0] = none :=
  ⟨rfl, rfl⟩

end Embedding

end Workbench.Vector
