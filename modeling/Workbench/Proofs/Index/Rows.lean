/-
# The rows of a project

What is stored for a source: for its whole text and then for each of its definitions the
chunks in order, each with the path, the name and the kind of what it is a part of, and
with the vector of its text.

* `CodebaseIndex.sourceRows` — the rows of a source.
* `reassemble?_sourceRows` — **the text of a source is put together again** from the rows of
  whole files with its path.
-/

import Workbench.Proofs.Index.Storing
import Workbench.Proofs.Text.Chunking

namespace Workbench.Index

open Workbench.Files Workbench.Code Workbench.Collection Workbench.Vector

/-- The row of a chunk of a unit. -/
def rowOf (f : String → Embedding) (unit : CodeUnit) (c : Text.Chunk) : Row :=
  ⟨unit.path, unit.kind.text, unit.name, (UInt64.ofNat c.index).toInt64,
    (UInt64.ofNat c.offset).toInt64, c.text, (f c.text).toBlob⟩

/-- What a row holds of the text that was cut. -/
def pieceOf (r : Row) : Text.Chunk :=
  ⟨r.index.toUInt64.toNat, r.offset.toUInt64.toNat, r.text⟩

/-- The row of a chunk holds what the chunk does, if its numbers fit into a word. -/
theorem pieceOf_rowOf {f : String → Embedding} {unit : CodeUnit} {c : Text.Chunk}
    (hindex : c.index < 2 ^ 64) (hoffset : c.offset < 2 ^ 64) : pieceOf (rowOf f unit c) = c := by
  simp only [pieceOf, rowOf, UInt64.toUInt64_toInt64, UInt64.toNat_ofNat',
    Nat.mod_eq_of_lt hindex, Nat.mod_eq_of_lt hoffset]

namespace CodebaseIndex

variable {σ : Type} {ix : CodebaseIndex σ} {f : String → Embedding} {content : Source → String}
  {files : List Source} {s : Source}

/-- The rows of a source with a given text. -/
def sourceRows (ix : CodebaseIndex σ) (f : String → Embedding) (content : Source → String)
    (s : Source) : List Row :=
  match ix.languages.get? s.extension with
  | some language => (language.units s.path (content s)).flatMap fun unit =>
      (Text.chunks unit.text ix.settings.chunkSize ix.settings.chunkOverlap).map (rowOf f unit)
  | none => []

/-- The size of the vectors that is noted with some rows: the one that the embedder tells,
or that of the first vector. -/
def notedDims (ix : CodebaseIndex σ) (f : String → Embedding) (rows : List Row) : Nat :=
  if 0 < ix.embedder.dims then ix.embedder.dims
  else ((rows.head?).map fun r => (f r.text).length).getD 0

theorem map_row_sourceChunks (ix : CodebaseIndex σ) (f : String → Embedding)
    (content : Source → String) (s : Source) :
    (ix.sourceChunks content s).map (·.row f) = ix.sourceRows f content s := by
  unfold sourceChunks sourceRows chunksOf
  cases ix.languages.get? s.extension with
  | none => rfl
  | some language =>
      simp only [List.map_flatMap, List.map_map]
      rfl

theorem dimsAfter_eq (ix : CodebaseIndex σ) (f : String → Embedding) (chunks : List PendingChunk) :
    ix.dimsAfter f chunks = ix.notedDims f (chunks.map (·.row f)) := by
  unfold dimsAfter notedDims
  cases chunks with
  | nil =>
      by_cases h : 0 < ix.embedder.dims
      · simp [h]
      · simp [Nat.eq_zero_of_not_pos h]
  | cons first rest => rfl

/-! ### Whole files -/

theorem ofConstruct?_eq_some {path : String} {source : List Char} {c : Construct}
    {unit : CodeUnit} (h : CodeUnit.ofConstruct? path source c = some unit) :
    unit.path = path ∧ unit.kind = .definition := by
  simp only [CodeUnit.ofConstruct?] at h
  split at h
  · simp at h
  · obtain rfl := Option.some.inj h
    exact ⟨rfl, rfl⟩

/-- A source is a unit itself; the others are definitions in it. -/
theorem exists_units (language : Language) (path source : String) :
    ∃ definitions, language.units path source = CodeUnit.ofFile path source :: definitions ∧
      ∀ unit ∈ definitions, unit.path = path ∧ unit.kind = .definition := by
  refine ⟨_, rfl, fun unit mem => ?_⟩
  obtain ⟨c, -, hunit⟩ := List.mem_filterMap.mp mem
  exact ofConstruct?_eq_some hunit

theorem path_of_mem_sourceRows {r : Row} (h : r ∈ ix.sourceRows f content s) : r.path = s.path := by
  unfold sourceRows at h
  split at h
  · next language _ =>
      obtain ⟨unit, hunit, hrow⟩ := List.mem_flatMap.mp h
      obtain ⟨c, -, rfl⟩ := List.mem_map.mp hrow
      obtain ⟨definitions, hunits, hdefinitions⟩ := exists_units language s.path (content s)
      rw [hunits] at hunit
      rcases List.mem_cons.mp hunit with rfl | hunit
      · rfl
      · exact (hdefinitions unit hunit).1
  · simp at h

/-- The rows of a whole file are those of its text. -/
theorem filter_sourceRows (hlanguage : (ix.languages.get? s.extension).isSome = true) :
    (ix.sourceRows f content s).filter (·.kind == UnitKind.file.text) =
      (Text.chunks (content s) ix.settings.chunkSize ix.settings.chunkOverlap).map
        (rowOf f (CodeUnit.ofFile s.path (content s))) := by
  obtain ⟨language, hget⟩ := Option.isSome_iff_exists.mp hlanguage
  obtain ⟨definitions, hunits, hdefinitions⟩ := exists_units language s.path (content s)
  simp only [sourceRows, hget, hunits, List.flatMap_cons, List.filter_append]
  rw [List.filter_eq_self.mpr, List.filter_eq_nil_iff.mpr, List.append_nil]
  · rfl
  · intro r mem
    obtain ⟨unit, hunit, hrow⟩ := List.mem_flatMap.mp mem
    obtain ⟨c, -, rfl⟩ := List.mem_map.mp hrow
    simp [rowOf, (hdefinitions unit hunit).2, UnitKind.text]
  · intro r mem
    obtain ⟨c, -, rfl⟩ := List.mem_map.mp mem
    simp [rowOf, CodeUnit.ofFile]

/-- The rows with the path of a source are its own. -/
theorem filter_path (hdistinct : files.Pairwise fun a b => a.path ≠ b.path) (hs : s ∈ files) :
    (files.flatMap (ix.sourceRows f content)).filter (·.path == s.path) =
      ix.sourceRows f content s := by
  obtain ⟨before, after, rfl⟩ := List.append_of_mem hs
  obtain ⟨-, hafter, hbefore⟩ := List.pairwise_append.mp hdistinct
  have hother (others : List Source) (hne : ∀ other ∈ others, other.path ≠ s.path) :
      (others.flatMap (ix.sourceRows f content)).filter (·.path == s.path) = [] := by
    refine List.filter_eq_nil_iff.mpr fun r mem => ?_
    obtain ⟨other, hmem, hrow⟩ := List.mem_flatMap.mp mem
    simpa [path_of_mem_sourceRows hrow] using hne other hmem
  have hown : (ix.sourceRows f content s).filter (·.path == s.path) =
      ix.sourceRows f content s :=
    List.filter_eq_self.mpr fun r mem => by simp [path_of_mem_sourceRows mem]
  rw [List.flatMap_append, List.flatMap_cons, List.filter_append, List.filter_append, hown,
    hother before fun other mem => hbefore other mem s (.head _),
    hother after fun other mem => ((List.pairwise_cons.mp hafter).1 other mem).symm,
    List.append_nil, List.nil_append]

/-- **The text of a source is put together again** from the rows of whole files with its
path, if the number of its bytes fits into a word. -/
theorem reassemble?_sourceRows (hdistinct : files.Pairwise fun a b => a.path ≠ b.path)
    (hlanguage : (ix.languages.get? s.extension).isSome = true) (hs : s ∈ files)
    (hfits : (content s).utf8ByteSize ≤ 2 ^ 64) :
    Text.reassemble? (((files.flatMap (ix.sourceRows f content)).filter fun r =>
      r.kind == UnitKind.file.text && r.path == s.path).map pieceOf) = some (content s) := by
  rw [← List.filter_filter, filter_path hdistinct hs, filter_sourceRows hlanguage, List.map_map]
  have hback (c : Text.Chunk)
      (hc : c ∈ Text.chunks (content s) ix.settings.chunkSize ix.settings.chunkOverlap) :
      (pieceOf ∘ rowOf f (CodeUnit.ofFile s.path (content s))) c = id c := by
    obtain ⟨hoffset, hindex⟩ := Text.bounds_of_mem_chunks hc
    exact pieceOf_rowOf (by omega) (by omega)
  rw [List.map_congr_left hback, List.map_id]
  exact Text.reassemble?_of_perm (List.Perm.refl _)

end CodebaseIndex

end Workbench.Index
