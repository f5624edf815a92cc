/-
# Damaged rows

The bytes of a vector and the word of a kind can be anything in a row that was not written
for a chunk. A row is sound when they can be read: then it is the row of exactly one chunk,
so reading is the inverse of writing and not only undone by it. Of rows of which one is
damaged nothing is read, and what is told is what is wrong with the first of them.

* `Embedding.ofBlob?_eq_some_iff` — **bytes are read as the one vector that they are of**.
* `Row.chunk_eq_ok_iff` — so are rows; `Row.chunk_of_not_sound` — what a damaged one gives.
* `mapM_chunk_eq_ok_iff`, `mapM_chunk_of_first` — rows that are read one after the other.
-/

import Workbench.Proofs.Attempt
import Workbench.Proofs.Collection.Reading

namespace Workbench

open Workbench.Text Workbench.Code Workbench.Collection Workbench.Index

/-! ### Vectors from bytes -/

namespace Vector

/-- The word that is made up of bytes has them at their places. -/
theorem bytes_of_word (b0 b1 b2 b3 : UInt8) :
    Single.toOctets (Single.ofOctets b0 b1 b2 b3) = [b0, b1, b2, b3] := by
  have h8 : (8 : UInt32).toBitVec % 32 = 8#32 := by decide
  have h16 : (16 : UInt32).toBitVec % 32 = 16#32 := by decide
  have h24 : (24 : UInt32).toBitVec % 32 = 24#32 := by decide
  have s8 : (8#32).toNat = 8 := rfl
  have s16 : (16#32).toNat = 16 := rfl
  have s24 : (24#32).toNat = 24 := rfl
  -- a byte has no bits beyond its eight, so nothing of one reaches the place of another
  have hnone (b : UInt8) (k : Nat) (hk : 8 ≤ k) : b.toBitVec.getLsbD k = false :=
    BitVec.getLsbD_of_ge _ _ hk
  unfold Single.toOctets Single.ofOctets
  simp only [List.cons.injEq, and_true]
  refine ⟨?_, ?_, ?_, ?_⟩ <;>
  · apply UInt8.toBitVec_inj.mp
    apply BitVec.eq_of_getLsbD_eq
    intro i hi
    simp only [UInt32.toBitVec_or, UInt32.toBitVec_shiftLeft, UInt8.toBitVec_toUInt32,
      UInt32.toBitVec_toUInt8, UInt32.toBitVec_shiftRight, BitVec.getLsbD_or, h8, h16, h24,
      BitVec.shiftLeft_eq', BitVec.ushiftRight_eq', s8, s16, s24, BitVec.getLsbD_shiftLeft,
      BitVec.getLsbD_setWidth, BitVec.getLsbD_ushiftRight]
    grind

namespace Embedding

/-- **Bytes are read as the one vector that they are of.** -/
theorem ofBlob?_eq_some_iff {blob : Octets} {a : Embedding} :
    ofBlob? blob = some a ↔ toBlob a = blob := by
  constructor
  · intro h
    induction blob using ofBlob?.induct generalizing a with
    | case1 =>
        obtain rfl : [] = a := by simpa [ofBlob?] using h
        rfl
    | case2 b0 b1 b2 b3 rest ih =>
        obtain ⟨others, hothers, rfl⟩ := Option.map_eq_some_iff.mp (by simpa [ofBlob?] using h)
        have hblob : toBlob (Single.ofOctets b0 b1 b2 b3 :: others) =
            Single.toOctets (Single.ofOctets b0 b1 b2 b3) ++ toBlob others := rfl
        rw [hblob, bytes_of_word, ih hothers]
        rfl
    | case3 blob hnil hfour =>
        rw [ofBlob?] at h
        · cases h
        · exact hnil
        · exact hfour
  · rintro rfl
    exact ofBlob?_toBlob a

theorem length_toBlob (a : Embedding) : (toBlob a).length = 4 * a.length := by
  induction a with
  | nil => rfl
  | cons x a ih =>
      have hblob : toBlob (x :: a) = x.toOctets ++ toBlob a := rfl
      rw [hblob, List.length_append, ih, List.length_cons, Single.toOctets]
      simp only [List.length_cons, List.length_nil]
      omega

/-- Bytes are those of a vector when none is left over. -/
theorem exists_ofBlob?_iff {blob : Octets} : (∃ a, ofBlob? blob = some a) ↔ 4 ∣ blob.length := by
  constructor
  · rintro ⟨a, h⟩
    rw [← ofBlob?_eq_some_iff.mp h, length_toBlob]
    exact Nat.dvd_mul_right 4 a.length
  · intro h
    induction blob using ofBlob?.induct with
    | case1 => exact ⟨[], rfl⟩
    | case2 b0 b1 b2 b3 rest ih =>
        obtain ⟨a, ha⟩ := ih (by simp only [List.length_cons] at h; omega)
        exact ⟨_, by rw [ofBlob?, ha, Option.map_some]⟩
    | case3 blob hnil hfour =>
        -- fewer than four bytes, and some
        rcases blob with _ | ⟨b0, _ | ⟨b1, _ | ⟨b2, _ | ⟨b3, rest⟩⟩⟩⟩
        · exact absurd rfl hnil
        · simp at h
        · simp at h
        · simp at h
        · exact absurd rfl (hfour b0 b1 b2 b3 rest)

theorem ofBlob?_eq_none_iff {blob : Octets} : ofBlob? blob = none ↔ ¬ 4 ∣ blob.length := by
  rw [← exists_ofBlob?_iff, ← Option.ne_none_iff_exists', Classical.not_not]

end Embedding

end Vector

/-! ### Kinds from words -/

theorem Code.UnitKind.ofText?_eq_some_iff {word : String} {kind : UnitKind} :
    UnitKind.ofText? word = some kind ↔ kind.text = word := by
  constructor
  · intro h
    unfold UnitKind.ofText? at h
    split at h
    · obtain rfl := Option.some.inj h
      rfl
    · obtain rfl := Option.some.inj h
      rfl
    · cases h
  · rintro rfl
    exact kind.ofText?_text

theorem Code.UnitKind.exists_ofText?_iff {word : String} :
    (∃ kind, UnitKind.ofText? word = some kind) ↔ word = "file" ∨ word = "definition" := by
  simp only [UnitKind.ofText?_eq_some_iff]
  constructor
  · rintro ⟨kind, rfl⟩
    cases kind with
    | file => exact .inl rfl
    | definition => exact .inr rfl
  · rintro (rfl | rfl)
    · exact ⟨.file, rfl⟩
    · exact ⟨.definition, rfl⟩

/-! ### Rows -/

namespace Collection

/-- A row can be read: its bytes are whole numbers, and its kind is one that there is. -/
def Row.Sound (r : Row) : Prop :=
  4 ∣ r.blob.length ∧ (r.kind = "file" ∨ r.kind = "definition")

instance (r : Row) : Decidable r.Sound :=
  inferInstanceAs (Decidable (_ ∧ _))

/-- What is wrong with a row that is not sound: its vector, or else its kind. -/
def Row.damage (r : Row) : Damage :=
  if 4 ∣ r.blob.length then .kind r.kind else .vector r.path r.index r.blob.length

/-- What is told of a row that is not sound. -/
def Row.damageText (r : Row) : String :=
  if 4 ∣ r.blob.length then "unknown unit kind " ++ quoted r.kind
  else "embedding of " ++ r.path ++ " chunk " ++ toString r.index ++ " is " ++
    toString r.blob.length ++ " bytes"

theorem Row.message_damage (r : Row) : r.damage.message = r.damageText := by
  unfold Row.damage Row.damageText
  split <;> rfl

/-- **A row is read as the one chunk that it is of.** -/
theorem Row.chunk_eq_ok_iff {r : Row} {c : StoredChunk} : r.chunk = .ok c ↔ r = c.row := by
  constructor
  · intro h
    unfold Row.chunk at h
    split at h
    · cases h
    · next embedding hblob =>
        split at h
        · cases h
        · next kind hkind =>
            obtain rfl := Except.ok.inj h
            simp only [StoredChunk.row, Vector.Embedding.ofBlob?_eq_some_iff.mp hblob,
              UnitKind.ofText?_eq_some_iff.mp hkind, Int64.toInt64_toUInt64]
  · rintro rfl
    exact c.chunk_row

theorem Row.sound_iff {r : Row} : r.Sound ↔ ∃ c, r.chunk = .ok c := by
  unfold Row.Sound
  rw [← Vector.Embedding.exists_ofBlob?_iff, ← UnitKind.exists_ofText?_iff]
  constructor
  · rintro ⟨⟨embedding, hblob⟩, kind, hkind⟩
    exact ⟨⟨r.path, r.name, kind, r.index.toUInt64, r.offset.toUInt64, r.text, embedding⟩,
      by simp only [Row.chunk, hblob, hkind]⟩
  · rintro ⟨c, h⟩
    obtain rfl := Row.chunk_eq_ok_iff.mp h
    exact ⟨⟨_, Vector.Embedding.ofBlob?_toBlob c.embedding⟩, _, c.kind.ofText?_text⟩

/-- A row that is not sound is refused for what is wrong with it. -/
theorem Row.chunk_of_not_sound {r : Row} (h : ¬ r.Sound) : r.chunk = .error r.damage := by
  unfold Row.chunk Row.damage
  by_cases hblob : 4 ∣ r.blob.length
  · obtain ⟨embedding, hembedding⟩ := Vector.Embedding.exists_ofBlob?_iff.mpr hblob
    have hkind : UnitKind.ofText? r.kind = none := by
      rw [Option.eq_none_iff_forall_ne_some]
      intro kind hkind
      exact h ⟨hblob, UnitKind.exists_ofText?_iff.mp ⟨kind, hkind⟩⟩
    simp only [hembedding, hkind, if_pos hblob]
  · have hnone : Vector.Embedding.ofBlob? r.blob = none :=
      Vector.Embedding.ofBlob?_eq_none_iff.mpr hblob
    simp only [hnone, if_neg hblob]

/-! ### Rows one after the other -/

variable {rows good rest : List Row} {bad : Row}

theorem mapM_chunk_eq_ok_iff {cs : List StoredChunk} :
    rows.mapM Row.chunk = .ok cs ↔ rows = cs.map (·.row) := by
  constructor
  · intro h
    induction rows generalizing cs with
    | nil =>
        obtain rfl : [] = cs := by simpa using h
        rfl
    | cons r rows ih =>
        rw [List.mapM_cons] at h
        obtain ⟨c, hc, h⟩ := Attempt.bind_eq_ok_iff.mp h
        obtain ⟨others, hothers, h⟩ := Attempt.bind_eq_ok_iff.mp h
        obtain rfl : c :: others = cs := Except.ok.inj h
        rw [List.map_cons, Row.chunk_eq_ok_iff.mp hc, ih hothers]
  · rintro rfl
    exact mapM_chunk_row cs

/-- Sound rows are those of chunks. -/
theorem exists_chunks (h : ∀ r ∈ rows, r.Sound) :
    ∃ cs : List StoredChunk, rows = cs.map (·.row) := by
  induction rows with
  | nil => exact ⟨[], rfl⟩
  | cons r rows ih =>
      obtain ⟨c, hc⟩ := Row.sound_iff.mp (h r (List.mem_cons_self ..))
      obtain ⟨cs, hcs⟩ := ih fun other mem => h other (List.mem_cons_of_mem _ mem)
      exact ⟨c :: cs, by rw [List.map_cons, ← hcs, Row.chunk_eq_ok_iff.mp hc]⟩

/-- **Of rows of which one is damaged nothing is read**, and the first such row is told. -/
theorem mapM_chunk_of_first (hgood : ∀ r ∈ good, r.Sound) (hbad : ¬ bad.Sound) :
    (good ++ bad :: rest).mapM Row.chunk = .error bad.damage := by
  obtain ⟨cs, rfl⟩ := exists_chunks hgood
  rw [List.mapM_append, mapM_chunk_row, List.mapM_cons, Row.chunk_of_not_sound hbad]
  rfl

/-- Rows are sound, or one of them is the first that is not. -/
theorem sound_or_exists_first (rows : List Row) :
    (∀ r ∈ rows, r.Sound) ∨
      ∃ good bad rest, rows = good ++ bad :: rest ∧ (∀ r ∈ good, r.Sound) ∧ ¬ bad.Sound := by
  induction rows with
  | nil =>
      left
      intro r mem
      cases mem
  | cons r rows ih =>
      by_cases hr : r.Sound
      · rcases ih with hall | ⟨good, bad, rest, rfl, hgood, hbad⟩
        · left
          intro other mem
          rcases List.mem_cons.mp mem with rfl | mem
          · exact hr
          · exact hall other mem
        · right
          refine ⟨r :: good, bad, rest, rfl, ?_, hbad⟩
          intro other mem
          rcases List.mem_cons.mp mem with rfl | mem
          · exact hr
          · exact hgood other mem
      · right
        refine ⟨[], r, rows, rfl, ?_, hr⟩
        intro other mem
        cases mem

end Collection

end Workbench
