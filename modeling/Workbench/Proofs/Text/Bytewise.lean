/-
# Texts as bytes

In the UTF-8 form of a text every character begins with a byte that continues none, and no
character is the beginning of another. So a text that is not empty occurs in another at a
position in bytes only where it occurs in it character by character, and the newlines of
a text are the bytes that are newlines.

* `Octets.ofText_eq`, `Octets.ofText_injective` — the bytes of a text, and what they tell.
* `Octets.offsets` — where bytes occur in others, overlapping places included.
* `Octets.ofChars_prefix_iff` — which texts are the beginning of another, in bytes.
* `Octets.offsets_ofChars_cons` — where a text occurs, one character after the other.
* `Octets.count_ofChars` — the newlines of a text, in bytes.
-/

import Workbench.Proofs.Text.Position

namespace Workbench.Text.Octets

variable {s t : String} {old : List Char} {c d : Char} {bytes rest : Octets} {i : Nat}

theorem ofText_eq (s : String) : ofText s = s.toList.flatMap String.utf8EncodeChar := by
  rw [← ofText_ofList, String.ofList_toList]

theorem ofText_injective (h : ofText s = ofText t) : s = t := by
  have hdata (text : String) : ofText text = text.toByteArray.data.toList := by
    rw [ofText, String.toUTF8_eq_toByteArray, ByteArray.toList, toList_loop_eq]
    rfl
  rw [hdata, hdata] at h
  exact String.toByteArray_inj.mp (ByteArray.ext (Array.toList_inj.mp h))

/-! ### Characters as bytes -/

/-- The bytes of characters, one after the other. -/
def ofChars (s : List Char) : Octets :=
  s.flatMap String.utf8EncodeChar

theorem ofText_eq_ofChars (s : String) : ofText s = ofChars s.toList :=
  ofText_eq s

@[simp] theorem ofChars_nil : ofChars [] = [] := rfl

theorem ofChars_cons (c : Char) (s : List Char) :
    ofChars (c :: s) = String.utf8EncodeChar c ++ ofChars s := rfl

@[simp] theorem ofChars_append (s t : List Char) : ofChars (s ++ t) = ofChars s ++ ofChars t :=
  List.flatMap_append

@[simp] theorem length_ofChars (s : List Char) : (ofChars s).length = byteLength s :=
  length_flatMap_utf8EncodeChar s

theorem ofChars_eq_nil_iff {s : List Char} : ofChars s = [] ↔ s = [] := by
  rw [← List.length_eq_zero_iff, length_ofChars, byteLength_eq_zero]

theorem take_ofChars (s : List Char) (k : Nat) :
    (ofChars s).take (byteLength (s.take k)) = ofChars (s.take k) := by
  conv => lhs; rw [← List.take_append_drop k s, ofChars_append]
  rw [List.take_append_drop, List.take_left' (length_ofChars _)]

theorem drop_ofChars (s : List Char) (k : Nat) :
    (ofChars s).drop (byteLength (s.take k)) = ofChars (s.drop k) := by
  conv => lhs; rw [← List.take_append_drop k s, ofChars_append]
  rw [List.take_append_drop, List.drop_left' (length_ofChars _)]

/-- No character is the beginning of another. -/
theorem eq_of_utf8EncodeChar_append
    (h : String.utf8EncodeChar c ++ bytes = String.utf8EncodeChar d ++ rest) : c = d := by
  have hfirst (c : Char) (bytes : Octets) :
      (String.utf8EncodeChar c ++ bytes).toByteArray.utf8DecodeChar? 0 = some c := by
    rw [List.toByteArray_append]
    exact ByteArray.utf8DecodeChar?_utf8EncodeChar_append
  have hsome := hfirst c bytes
  rw [h, hfirst d rest] at hsome
  exact (Option.some.inj hsome).symm

/-- **A text is the beginning of another** exactly when it is so in bytes. -/
theorem ofChars_prefix_iff {s t : List Char} : ofChars s <+: ofChars t ↔ s <+: t := by
  constructor
  · intro h
    induction s generalizing t with
    | nil => exact List.nil_prefix
    | cons c s ih =>
        obtain ⟨bytes, hbytes⟩ := h
        cases t with
        | nil => simp [ofChars_eq_nil_iff] at hbytes
        | cons d t =>
            rw [ofChars_cons, ofChars_cons, List.append_assoc] at hbytes
            obtain rfl := eq_of_utf8EncodeChar_append hbytes
            exact (List.prefix_cons_inj c).mpr (ih ⟨bytes, List.append_cancel_left hbytes⟩)
  · rintro ⟨more, rfl⟩
    exact ⟨ofChars more, (ofChars_append s more).symm⟩

/-- No text begins inside a character. -/
theorem not_prefix_inside (hne : old ≠ []) (hpos : 0 < i)
    (hi : i < (String.utf8EncodeChar c).length) (rest : Octets) :
    ¬ ofChars old <+: (String.utf8EncodeChar c ++ rest).drop i := by
  obtain ⟨d, old, rfl⟩ := List.exists_cons_of_ne_nil hne
  intro hoccurs
  have hlength : 0 < (String.utf8EncodeChar d).length := by
    rw [String.length_utf8EncodeChar]
    exact d.utf8Size_pos
  have hsame : (String.utf8EncodeChar d)[0] = (String.utf8EncodeChar c)[i] := by
    obtain ⟨more, hmore⟩ := hoccurs
    have hfirst := congrArg (fun bytes => bytes[0]?) hmore
    rw [List.getElem?_drop, Nat.add_zero, ofChars_cons, List.append_assoc,
      List.getElem?_append_left hlength, List.getElem?_append_left hi,
      List.getElem?_eq_getElem hlength, List.getElem?_eq_getElem hi] at hfirst
    exact Option.some.inj hfirst
  have hstart : (String.utf8EncodeChar c)[i].IsUTF8FirstByte ↔ i = 0 :=
    UInt8.isUTF8FirstByte_getElem_utf8EncodeChar
  rw [← hsame] at hstart
  exact absurd (hstart.mp UInt8.isUTF8FirstByte_getElem_zero_utf8EncodeChar) (by omega)

/-! ### Where bytes occur -/

/-- Bytes occur in others at a position. -/
def OccursAt (old s : Octets) (i : Nat) : Prop :=
  (s.drop i).take old.length = old

instance (old s : Octets) : DecidablePred (OccursAt old s) := fun i =>
  inferInstanceAs (Decidable ((s.drop i).take old.length = old))

/-- The positions at which bytes occur in others, in order. -/
def offsets (old s : Octets) : List Nat :=
  (List.range (s.length + 1)).filter (OccursAt old s)

theorem occursAt_iff {old s : Octets} : OccursAt old s i ↔ old <+: s.drop i := by
  rw [OccursAt, List.prefix_iff_eq_take, eq_comm]

theorem mem_offsets {old s : Octets} (hne : old ≠ []) : i ∈ offsets old s ↔ OccursAt old s i := by
  rw [offsets, List.mem_filter, List.mem_range, decide_eq_true_iff]
  refine ⟨fun h => h.2, fun h => ⟨Nat.lt_of_not_le fun hlong => ?_, h⟩⟩
  rw [OccursAt, List.drop_eq_nil_of_le (by omega), List.take_nil] at h
  exact hne h.symm

theorem pairwise_offsets (old s : Octets) : (offsets old s).Pairwise (· < ·) :=
  List.Pairwise.filter _ List.pairwise_lt_range

/-- **Where a text occurs in another**, one character after the other: at its start or in
what comes after its first character. -/
theorem offsets_ofChars_cons (hne : old ≠ []) (c : Char) (s : List Char) :
    offsets (ofChars old) (ofChars (c :: s)) =
      (if old <+: c :: s then [0] else []) ++
        (offsets (ofChars old) (ofChars s)).map (c.utf8Size + ·) := by
  have hlength : (ofChars (c :: s)).length + 1 = c.utf8Size + ((ofChars s).length + 1) := by
    simp [ofChars_cons, Nat.add_assoc]
  have hfirst : (List.range c.utf8Size).filter (OccursAt (ofChars old) (ofChars (c :: s))) =
      if old <+: c :: s then [0] else [] := by
    obtain ⟨n, hn⟩ := Nat.exists_eq_add_one.mpr c.utf8Size_pos
    have hinside : ∀ i ∈ (List.range n).map Nat.succ,
        ¬ decide (OccursAt (ofChars old) (ofChars (c :: s)) i) = true := by
      intro i mem
      rw [decide_eq_true_iff]
      obtain ⟨j, hj, rfl⟩ := List.mem_map.mp mem
      rw [occursAt_iff, ofChars_cons]
      refine not_prefix_inside hne (Nat.succ_pos j) ?_ _
      rw [String.length_utf8EncodeChar, hn]
      exact Nat.succ_lt_succ (List.mem_range.mp hj)
    rw [hn, List.range_succ_eq_map, List.filter_cons,
      List.filter_eq_nil_iff.mpr hinside]
    simp [occursAt_iff, ofChars_prefix_iff]
  have hlater : ((List.range ((ofChars s).length + 1)).map (c.utf8Size + ·)).filter
      (OccursAt (ofChars old) (ofChars (c :: s))) =
        (offsets (ofChars old) (ofChars s)).map (c.utf8Size + ·) := by
    rw [List.filter_map, offsets]
    congr 1
    refine List.filter_congr fun i _ => ?_
    have hdrop : (ofChars (c :: s)).drop (c.utf8Size + i) = (ofChars s).drop i := by
      rw [ofChars_cons, ← String.length_utf8EncodeChar c, List.drop_length_add_append]
    simp [OccursAt, hdrop]
  rw [offsets, hlength, List.range_add, List.filter_append, hfirst, hlater]

/-! ### Newlines -/

/-- A character other than the newline has no byte that is one. -/
theorem count_utf8EncodeChar (c : Char) :
    (String.utf8EncodeChar c).count 0x0A = if c = '\n' then 1 else 0 := by
  by_cases hc : c = '\n'
  · subst hc
    decide
  · have hval : c.val.toNat ≠ 10 := fun h => hc (Char.ext (UInt32.toNat_inj.mp h))
    rw [if_neg hc, List.count_eq_zero]
    have hten : (0x0A : UInt8).toNat = 10 := rfl
    simp only [String.utf8EncodeChar]
    (repeat' split) <;>
      simp only [List.mem_cons, List.not_mem_nil, or_false, ← UInt8.toNat_inj, hten,
        UInt8.toNat_ofNat'] <;>
      omega

/-- **The newlines of a text** are the bytes of it that are newlines. -/
theorem count_ofChars (s : List Char) : (ofChars s).count 0x0A = s.count '\n' := by
  induction s with
  | nil => rfl
  | cons c s ih =>
      rw [ofChars_cons, List.count_append, ih, count_utf8EncodeChar, List.count_cons]
      simp [Nat.add_comm]

end Workbench.Text.Octets
