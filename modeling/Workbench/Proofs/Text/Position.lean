/-
# Positions in bytes

A position in a text is a number of bytes from its start. Between two characters, and
at both ends, it is a boundary; a text can be cut there and nowhere else. This module
gives cutting by positions, with every cut that would fall inside a character or beyond
the end refused, and relates it to the cuts of `Workbench.Text.Clip`, which count
characters off a list.

* `slice?` — the stretch between two positions; `slice?_append` says when there is one.
* `Position.floor`, `Position.ceil` — the nearest boundary at or before a position and at or
  after it: `floor_eq` and `ceil_eq` give them as the sizes of `takeBytes` and
  `splitAtLeast`.
* `byteAt?` — a byte of the UTF-8 form; `byteAt?_last` says when the byte before a
  boundary is a newline.
-/

import Workbench.Text.Clip
import Workbench.Text.Octets

namespace Workbench.Text

/-! ### Dropping bytes -/

theorem dropBytes?_cons (c : Char) (s : List Char) (n : Nat) :
    dropBytes? (c.utf8Size + n) (c :: s) = dropBytes? n s := by
  have hpos := c.utf8Size_pos
  obtain ⟨m, hm⟩ : ∃ m, c.utf8Size + n = m + 1 := ⟨c.utf8Size + n - 1, by omega⟩
  rw [hm, dropBytes?, if_pos (by omega)]
  congr 1
  omega

/-- Dropping counts on from any boundary. -/
theorem dropBytes?_append (s t : List Char) (n : Nat) :
    dropBytes? (byteLength s + n) (s ++ t) = dropBytes? n t := by
  induction s with
  | nil => simp
  | cons c s ih =>
    rw [byteLength_cons, List.cons_append, Nat.add_assoc, dropBytes?_cons, ih]

@[simp] theorem dropBytes?_append_self (s t : List Char) :
    dropBytes? (byteLength s) (s ++ t) = some t := by
  have h := dropBytes?_append s t 0
  simpa [dropBytes?] using h

theorem byteLength_pos {s : List Char} (h : s ≠ []) : 0 < byteLength s := by
  cases s with
  | nil => exact absurd rfl h
  | cons c s =>
    have hpos := c.utf8Size_pos
    rw [byteLength_cons]
    omega

theorem byteLength_eq_zero {s : List Char} : byteLength s = 0 ↔ s = [] := by
  cases s with
  | nil => simp
  | cons c s =>
    have hpos := byteLength_pos (List.cons_ne_nil c s)
    constructor
    · omega
    · simp

theorem byteLength_ofList (s : List Char) : (String.ofList s).utf8ByteSize = byteLength s := by
  induction s with
  | nil => rfl
  | cons c s ih =>
    rw [← List.singleton_append, String.ofList_append, String.utf8ByteSize_append, ih]
    simp

/-- A text of one-byte characters has as many bytes as characters. -/
theorem byteLength_of_ascii {s : List Char} (h : ∀ c ∈ s, c.utf8Size = 1) :
    byteLength s = s.length := by
  induction s with
  | nil => rfl
  | cons c s ih =>
    have hc := h c (.head _)
    rw [byteLength_cons, ih fun d mem => h d (.tail _ mem), hc, List.length_cons]
    omega

theorem byteLength_toList (s : String) : byteLength s.toList = s.utf8ByteSize := by
  rw [← byteLength_ofList, String.ofList_toList]

theorem byteLength_mono {s t : List Char} (h : s <+: t) : byteLength s ≤ byteLength t := by
  obtain ⟨rest, rfl⟩ := h
  rw [byteLength_append]
  exact Nat.le_add_right _ _

/-- Of two beginnings of a text the one with fewer bytes begins the other. -/
theorem prefix_of_byteLength_le {s t whole : List Char} (hs : s <+: whole) (ht : t <+: whole)
    (h : byteLength s ≤ byteLength t) : s <+: t := by
  rcases List.prefix_or_prefix_of_prefix hs ht with hst | hts
  · exact hst
  · obtain ⟨rest, rfl⟩ := hts
    rw [byteLength_append] at h
    have : rest = [] := byteLength_eq_zero.mp (by omega)
    simp [this]

/-! ### Cuts by size -/

theorem takeBytes_cons_of_le {c : Char} {s : List Char} {n : Nat} (h : c.utf8Size ≤ n) :
    takeBytes n (c :: s) = c :: takeBytes (n - c.utf8Size) s := by
  rw [takeBytes, if_pos h]

theorem takeBytes_cons_of_lt {c : Char} {s : List Char} {n : Nat} (h : n < c.utf8Size) :
    takeBytes n (c :: s) = [] := by
  rw [takeBytes, if_neg (by omega)]

theorem splitAtLeast_cons {c : Char} {s : List Char} {n : Nat} (hn : 0 < n) :
    splitAtLeast n (c :: s) =
      (c :: (splitAtLeast (n - c.utf8Size) s).1, (splitAtLeast (n - c.utf8Size) s).2) := by
  obtain ⟨m, rfl⟩ : ∃ m, n = m + 1 := ⟨n - 1, by omega⟩
  rw [splitAtLeast]

@[simp] theorem splitAtLeast_zero (s : List Char) : splitAtLeast 0 s = ([], s) := by
  rw [splitAtLeast]

@[simp] theorem splitAtLeast_nil (n : Nat) : splitAtLeast n [] = ([], []) := by
  cases n <;> rw [splitAtLeast]

/-- A text that is not longer is taken whole. -/
theorem splitAtLeast_of_byteLength_le {s : List Char} {n : Nat} (h : byteLength s ≤ n) :
    splitAtLeast n s = (s, []) := by
  induction s generalizing n with
  | nil => simp
  | cons c s ih =>
    have hpos := c.utf8Size_pos
    rw [byteLength_cons] at h
    rw [splitAtLeast_cons (by omega), ih (by omega)]

theorem takeBytes_append (s t : List Char) (n : Nat) :
    takeBytes (byteLength s + n) (s ++ t) = s ++ takeBytes n t := by
  induction s with
  | nil => simp
  | cons c s ih =>
    rw [byteLength_cons, List.cons_append, takeBytes_cons_of_le (by omega),
      show c.utf8Size + byteLength s + n - c.utf8Size = byteLength s + n by omega, ih,
      List.cons_append]

theorem takeBytes_of_byteLength_le {s : List Char} {n : Nat} (h : byteLength s ≤ n) :
    takeBytes n s = s := by
  have happ := takeBytes_append s [] (n - byteLength s)
  rw [Nat.add_sub_cancel' h, List.append_nil] at happ
  simpa [takeBytes] using happ

theorem prefix_takeBytes (n : Nat) (s : List Char) : takeBytes n s <+: s :=
  ⟨_, takeBytes_append_drop n s⟩

theorem splitAtLeast_append_left (s t : List Char) {n : Nat} (hn : 0 < n) :
    splitAtLeast (byteLength s + n) (s ++ t) =
      (s ++ (splitAtLeast n t).1, (splitAtLeast n t).2) := by
  induction s with
  | nil => simp
  | cons c s ih =>
    rw [byteLength_cons, List.cons_append, splitAtLeast_cons (by omega),
      show c.utf8Size + byteLength s + n - c.utf8Size = byteLength s + n by omega, ih,
      List.cons_append]

/-- A cut that stays within the beginning of a text does not see the rest. -/
theorem splitAtLeast_append_of_le {s : List Char} (t : List Char) {n : Nat}
    (h : n ≤ byteLength s) :
    splitAtLeast n (s ++ t) = ((splitAtLeast n s).1, (splitAtLeast n s).2 ++ t) := by
  induction s generalizing n with
  | nil =>
    obtain rfl : n = 0 := by simpa using h
    simp
  | cons c s ih =>
    rcases Nat.eq_zero_or_pos n with rfl | hn
    · simp
    · rw [byteLength_cons] at h
      rw [List.cons_append, splitAtLeast_cons hn, splitAtLeast_cons hn,
        ih (by omega)]

/-! ### Boundaries -/

namespace Position

/-- A cut at the position falls between two characters, or at an end. -/
def isBoundary (s : List Char) (i : Nat) : Bool :=
  (dropBytes? i s).isSome

/-- The last boundary at or before a position. -/
def floor (s : List Char) : Nat → Nat
  | 0 => 0
  | i + 1 => if isBoundary s (i + 1) then i + 1 else floor s i

/-- The first boundary at or after a position; the end if there is none. -/
def ceil (s : List Char) (i : Nat) : Nat :=
  if i < byteLength s ∧ isBoundary s i = false then ceil s (i + 1) else min i (byteLength s)
termination_by byteLength s - i

theorem isBoundary_cons (c : Char) (s : List Char) (n : Nat) :
    isBoundary (c :: s) (c.utf8Size + n) = isBoundary s n := by
  rw [isBoundary, dropBytes?_cons, isBoundary]

/-- Inside the first character there is no boundary. -/
theorem isBoundary_inside {c : Char} {s : List Char} {n : Nat} (hn : 0 < n)
    (hc : n < c.utf8Size) : isBoundary (c :: s) n = false := by
  obtain ⟨m, rfl⟩ : ∃ m, n = m + 1 := ⟨n - 1, by omega⟩
  rw [isBoundary, dropBytes?, if_neg (by omega)]
  rfl

theorem isBoundary_nil {n : Nat} (hn : 0 < n) : isBoundary [] n = false := by
  obtain ⟨m, rfl⟩ : ∃ m, n = m + 1 := ⟨n - 1, by omega⟩
  rfl

/-! ### The nearest boundaries -/

/-- What fits up to a boundary fills it. -/
theorem byteLength_takeBytes_of_isBoundary {s : List Char} {n : Nat}
    (h : isBoundary s n = true) : byteLength (takeBytes n s) = n := by
  induction s generalizing n with
  | nil =>
    rcases Nat.eq_zero_or_pos n with rfl | hn
    · rfl
    · rw [isBoundary_nil hn] at h
      exact absurd h (by simp)
  | cons c s ih =>
    rcases Nat.lt_or_ge n c.utf8Size with hlt | hle
    · rcases Nat.eq_zero_or_pos n with rfl | hn
      · rw [takeBytes_cons_of_lt hlt, byteLength_nil]
      · rw [isBoundary_inside hn hlt] at h
        exact absurd h (by simp)
    · obtain ⟨m, rfl⟩ := Nat.exists_eq_add_of_le hle
      rw [isBoundary_cons] at h
      rw [takeBytes_cons_of_le hle, byteLength_cons, Nat.add_sub_cancel_left, ih h]

/-- A byte more that ends inside a character makes room for nothing. -/
theorem takeBytes_succ_of_not_isBoundary {s : List Char} {n : Nat}
    (h : isBoundary s (n + 1) = false) : takeBytes (n + 1) s = takeBytes n s := by
  induction s generalizing n with
  | nil => simp [takeBytes]
  | cons c s ih =>
    rcases Nat.lt_or_ge (n + 1) c.utf8Size with hlt | hle
    · rw [takeBytes_cons_of_lt hlt, takeBytes_cons_of_lt (by omega)]
    · obtain ⟨m, hm⟩ := Nat.exists_eq_add_of_le hle
      rw [hm, isBoundary_cons] at h
      -- a character that ends at `n + 1` would make it a boundary
      obtain ⟨k, rfl⟩ : ∃ k, m = k + 1 := by
        cases m with
        | zero => simp [isBoundary, dropBytes?] at h
        | succ k => exact ⟨k, rfl⟩
      rw [takeBytes_cons_of_le hle, takeBytes_cons_of_le (by omega),
        show n + 1 - c.utf8Size = k + 1 by omega, show n - c.utf8Size = k by omega, ih h]

/-- **The last boundary at or before a position** is where the text that fits ends. -/
theorem floor_eq (s : List Char) (n : Nat) : floor s n = byteLength (takeBytes n s) := by
  induction n with
  | zero =>
    cases s with
    | nil => rfl
    | cons c s => rw [takeBytes_cons_of_lt c.utf8Size_pos]; rfl
  | succ n ih =>
    rw [floor]
    cases h : isBoundary s (n + 1) with
    | true => rw [if_pos rfl, byteLength_takeBytes_of_isBoundary h]
    | false => rw [if_neg (by simp), ih, takeBytes_succ_of_not_isBoundary h]

/-- What reaches a boundary ends there. -/
theorem byteLength_splitAtLeast_of_isBoundary {s : List Char} {n : Nat}
    (h : isBoundary s n = true) : byteLength (splitAtLeast n s).1 = n := by
  induction s generalizing n with
  | nil =>
    rcases Nat.eq_zero_or_pos n with rfl | hn
    · simp
    · rw [isBoundary_nil hn] at h
      exact absurd h (by simp)
  | cons c s ih =>
    rcases Nat.eq_zero_or_pos n with rfl | hn
    · simp
    · rcases Nat.lt_or_ge n c.utf8Size with hlt | hle
      · rw [isBoundary_inside hn hlt] at h
        exact absurd h (by simp)
      · obtain ⟨m, rfl⟩ := Nat.exists_eq_add_of_le hle
        rw [isBoundary_cons] at h
        rw [splitAtLeast_cons hn, byteLength_cons, Nat.add_sub_cancel_left, ih h]

/-- What reaches into a character takes it whole. -/
theorem splitAtLeast_succ_of_not_isBoundary {s : List Char} {n : Nat}
    (h : isBoundary s n = false) : splitAtLeast (n + 1) s = splitAtLeast n s := by
  induction s generalizing n with
  | nil => simp
  | cons c s ih =>
    have hn : 0 < n := by
      rcases Nat.eq_zero_or_pos n with rfl | hn
      · simp [isBoundary, dropBytes?] at h
      · exact hn
    rw [splitAtLeast_cons (by omega), splitAtLeast_cons hn]
    rcases Nat.lt_or_ge n c.utf8Size with hlt | hle
    · rw [show n + 1 - c.utf8Size = 0 by omega, show n - c.utf8Size = 0 by omega]
    · obtain ⟨m, rfl⟩ := Nat.exists_eq_add_of_le hle
      rw [isBoundary_cons] at h
      rw [show c.utf8Size + m + 1 - c.utf8Size = m + 1 by omega, Nat.add_sub_cancel_left, ih h]

/-- **The first boundary at or after a position** is where the text that reaches it ends. -/
theorem ceil_eq (s : List Char) (n : Nat) : ceil s n = byteLength (splitAtLeast n s).1 := by
  fun_induction ceil s n with
  | case1 n h ih => rw [ih, splitAtLeast_succ_of_not_isBoundary h.2]
  | case2 n h =>
    rcases Nat.lt_or_ge n (byteLength s) with hlt | hle
    · have hb : isBoundary s n = true := by
        cases hb : isBoundary s n with
        | true => rfl
        | false => exact absurd ⟨hlt, hb⟩ h
      rw [byteLength_splitAtLeast_of_isBoundary hb]
      omega
    · rw [splitAtLeast_of_byteLength_le hle]
      exact Nat.min_eq_right hle

end Position

/-! ### Slices -/

/-- The stretch from one position to another; none unless both are boundaries and the
first is not after the second. -/
def slice? (s : List Char) (i j : Nat) : Option (List Char) :=
  if i ≤ j then do
    let rest ← dropBytes? i s
    let after ← dropBytes? (j - i) rest
    return rest.take (rest.length - after.length)
  else none

/-- Any stretch of a text is the slice between the positions at which it starts and ends. -/
theorem slice?_append (s t u : List Char) :
    slice? (s ++ t ++ u) (byteLength s) (byteLength s + byteLength t) = some t := by
  rw [slice?, if_pos (by omega), List.append_assoc, dropBytes?_append_self,
    Nat.add_sub_cancel_left]
  simp

/-! ### Bytes -/

/-- The byte of the UTF-8 form at a position. -/
def byteAt? (s : List Char) (i : Nat) : Option UInt8 :=
  (Octets.ofText (String.ofList s))[i]?

theorem toList_loop_eq (bytes : ByteArray) (i : Nat) (read : List UInt8) :
    ByteArray.toList.loop bytes i read = read.reverse ++ bytes.data.toList.drop i := by
  fun_induction ByteArray.toList.loop bytes i read with
  | case1 i read h ih =>
    have hi : i < bytes.data.toList.length := by simpa using h
    rw [ih, List.drop_eq_getElem_cons hi, List.reverse_cons, List.append_assoc,
      List.singleton_append]
    congr 2
    simp [ByteArray.get!, getElem!_pos bytes.data i h]
  | case2 i read h =>
    rw [List.drop_eq_nil_of_le (by simpa using Nat.le_of_not_lt h), List.append_nil]

theorem toList_toByteArray (bytes : List UInt8) : bytes.toByteArray.toList = bytes := by
  rw [ByteArray.toList, toList_loop_eq, List.toList_data_toByteArray]
  rfl

/-- The UTF-8 form of a text is that of its characters, one after the other. -/
theorem ofText_ofList (s : List Char) :
    Octets.ofText (String.ofList s) = s.flatMap String.utf8EncodeChar := by
  rw [Octets.ofText, String.toUTF8_eq_toByteArray, String.toByteArray_ofList, List.utf8Encode,
    toList_toByteArray]

theorem length_flatMap_utf8EncodeChar (s : List Char) :
    (s.flatMap String.utf8EncodeChar).length = byteLength s := by
  induction s with
  | nil => rfl
  | cons c s ih => rw [List.flatMap_cons, List.length_append, ih, String.length_utf8EncodeChar,
      byteLength_cons]

/-- Only the newline is written with a last byte that is that of a newline. -/
theorem getLast?_utf8EncodeChar (c : Char) :
    (String.utf8EncodeChar c).getLast? = some 0x0A ↔ c = '\n' := by
  have hval : c.val.toNat = 10 ↔ c = '\n' := by
    constructor
    · intro h
      exact Char.ext (UInt32.toNat_inj.mp h)
    · rintro rfl
      rfl
  have hten : (0x0A : UInt8).toNat = 10 := rfl
  rw [← hval]
  unfold String.utf8EncodeChar
  simp only
  split <;> rename_i h₁
  · simp only [List.getLast?_singleton, Option.some.injEq, ← UInt8.toNat_inj, UInt8.toNat_ofNat']
    omega
  · split
    · simp only [List.getLast?_cons_cons, List.getLast?_singleton, Option.some.injEq,
        ← UInt8.toNat_inj, UInt8.toNat_ofNat']
      omega
    · split <;>
        simp only [List.getLast?_cons_cons, List.getLast?_singleton, Option.some.injEq,
          ← UInt8.toNat_inj, UInt8.toNat_ofNat'] <;>
        omega

/-- The byte before a boundary is a newline exactly when the character before it is one. -/
theorem byteAt?_last (s t : List Char) (h : s ≠ []) :
    ∃ b, byteAt? (s ++ t) (byteLength s - 1) = some b ∧ (b = 0x0A ↔ s.getLast? = some '\n') := by
  obtain ⟨init, c, rfl⟩ : ∃ init c, s = init ++ [c] :=
    ⟨s.dropLast, s.getLast h, (List.dropLast_concat_getLast h).symm⟩
  have hne : String.utf8EncodeChar c ≠ [] := String.utf8EncodeChar_ne_nil
  have hlen : (String.utf8EncodeChar c).length = c.utf8Size := String.length_utf8EncodeChar c
  have hpos := c.utf8Size_pos
  refine ⟨(String.utf8EncodeChar c).getLast hne, ?_, ?_⟩
  · rw [byteAt?, ofText_ofList, List.append_assoc, List.flatMap_append,
      List.getElem?_append_right (by rw [length_flatMap_utf8EncodeChar, byteLength_append]
                                     simp only [byteLength_cons, byteLength_nil]
                                     omega),
      length_flatMap_utf8EncodeChar, List.singleton_append, List.flatMap_cons,
      List.getElem?_append_left (by simp only [byteLength_append, byteLength_cons, byteLength_nil]
                                    omega),
      List.getLast_eq_getElem, byteLength_append, byteLength_cons, byteLength_nil]
    rw [List.getElem?_eq_getElem (by omega)]
    congr 2
    omega
  · rw [List.getLast?_concat, Option.some.injEq, ← getLast?_utf8EncodeChar c,
      List.getLast?_eq_some_getLast hne, Option.some.injEq]

end Workbench.Text
