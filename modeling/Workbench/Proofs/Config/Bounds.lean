/-
# The numbers of a configuration

The numbers of a configuration are sizes that are read from a document, where a signed word
holds each of them, or defaults. So no number of a configuration that is accepted is
greater than a signed word can hold, and what counts chunks, batches and buckets is not
zero.

* `Shape.decode_keeps` — what the fields of a record keep is kept by reading it.
* `Config.Bounded` — a signed word holds every number of a configuration.
* `Config.bounded_of_parse` — **the numbers of an accepted configuration are bounded.**
* `Config.Valid.index_pos` — chunks and batches of an accepted configuration are not empty.
-/

import Mathlib.Data.Option.Basic
import Workbench.Config.Basic
import Workbench.Proofs.Attempt
import Workbench.Proofs.Toml.Signed

namespace Workbench

open Workbench.Json Workbench.Config

/-! ### Records -/

namespace Json

variable {α : Type} {P : α → Prop}

/-- The fields of a record that are read from signed words keep a property of it. -/
def Shape.Keeps (shape : Shape α) (P : α → Prop) : Prop :=
  ∀ field ∈ shape.fields, ∀ {v : Value} {before after : α}, v.Signed → P before →
    field.set v before = .ok after → P after

namespace Shape

variable {shape : Shape α} {record after : α}

theorem setNamed_keeps (hkeeps : shape.Keeps P) {fields : List (String × Value)}
    (hsigned : ∀ f ∈ fields, f.2.Signed) (h : P record)
    (hset : shape.setNamed fields record = .ok after) : P after := by
  induction fields generalizing record with
  | nil => exact Except.ok.inj hset ▸ h
  | cons first rest ih =>
    obtain ⟨name, v⟩ := first
    have hrest : ∀ f ∈ rest, f.2.Signed := fun f mem => hsigned f (.tail _ mem)
    unfold setNamed at hset
    split at hset
    · next field hfind =>
      obtain ⟨changed, hchanged, hset⟩ := Attempt.bind_eq_ok_iff.mp hset
      exact ih hrest (hkeeps field (List.mem_of_find?_eq_some hfind) (hsigned _ (.head _)) h
        hchanged) hset
    · exact ih hrest h hset

theorem setOrdered_keeps (hkeeps : shape.Keeps P) {fields : List (Field α)}
    (hfields : ∀ field ∈ fields, field ∈ shape.fields) {values : List Value}
    (hsigned : ∀ v ∈ values, v.Signed) (h : P record) {done : Nat}
    (hset : shape.setOrdered done fields values record = .ok after) : P after := by
  induction fields generalizing values record done with
  | nil =>
    unfold setOrdered at hset
    exact Except.ok.inj hset ▸ h
  | cons field fields ih =>
    have hrest : ∀ field ∈ fields, field ∈ shape.fields := fun f mem => hfields f (.tail _ mem)
    cases values with
    | nil =>
      unfold setOrdered at hset
      split at hset
      · cases hset
      · exact ih hrest hsigned h hset
    | cons v values =>
      unfold setOrdered at hset
      obtain ⟨changed, hchanged, hset⟩ := Attempt.bind_eq_ok_iff.mp hset
      exact ih hrest (fun v mem => hsigned v (.tail _ mem))
        (hkeeps field (hfields _ (.head _)) (hsigned _ (.head _)) h hchanged) hset

/-- **What the fields of a record keep** is kept by reading it from signed words. -/
theorem decode_keeps (hkeeps : shape.Keeps P) (hblank : P shape.blank) {strict : Bool} {v : Value}
    (hsigned : v.Signed) (h : shape.decode strict v = .ok after) : P after := by
  unfold decode at h
  split at h
  · next fields =>
    obtain ⟨record, hrecord, h⟩ := Attempt.bind_eq_ok_iff.mp h
    have hall : ∀ f ∈ fields, f.2.Signed := by
      cases hsigned with
      | object all => exact all
    split at h
    · cases h
    · exact Except.ok.inj h ▸ setNamed_keeps hkeeps hall hblank hrecord
  · next values =>
    obtain ⟨record, hrecord, h⟩ := Attempt.bind_eq_ok_iff.mp h
    have hall : ∀ v ∈ values, v.Signed := by
      cases hsigned with
      | array all => exact all
    split at h
    · cases h
    · exact Except.ok.inj h ▸ setOrdered_keeps hkeeps (fun _ mem => mem) hall hblank hrecord
  · cases h

end Shape

end Json

/-! ### Settings -/

namespace Config

variable {α β : Type} {P : α → Prop} {v : Value} {before after : α} {name : String}

theorem lt_of_word {expected : String} {n : Nat} (hsigned : v.Signed)
    (h : Decode.word expected v = .ok n) : n < 2 ^ 63 := by
  unfold Decode.word at h
  split at h
  · split at h
    · cases hsigned with
      | whole low high =>
        have := Except.ok.inj h
        omega
    · cases h
  · cases h

theorem lt_of_size {n : Nat} (hsigned : v.Signed) (h : Decode.size v = .ok n) : n < 2 ^ 63 :=
  lt_of_word hsigned h

/-- A setting is what is read for it. -/
theorem exists_of_setting {read : Value → Except Json.Fault β} {set : α → β → α}
    (h : (setting name read set).set v before = .ok after) :
    ∃ x, read v = .ok x ∧ set before x = after := by
  unfold setting at h
  cases hread : read v with
  | error fault => simp [hread, Except.map] at h
  | ok x =>
    simp only [hread, Except.map, Except.ok.injEq] at h
    exact ⟨x, rfl, h⟩

/-- A signed word holds every limit of the editor. -/
structure EditorSettings.Bounded (s : EditorSettings) : Prop where
  response : s.maxResponseChars < 2 ^ 63
  context : s.snippetContextLines < 2 ^ 63
  entries : s.maxDirectoryEntries < 2 ^ 63
  depth : s.directoryViewDepth < 2 ^ 63

theorem EditorSettings.keeps_bounded : EditorSettings.shape.Keeps Bounded := by
  intro field mem v before after hsigned h hset
  simp only [EditorSettings.shape, List.mem_cons, List.not_mem_nil, or_false] at mem
  rcases mem with rfl | rfl | rfl | rfl
  all_goals obtain ⟨n, hn, rfl⟩ := exists_of_setting hset
  · exact { h with response := lt_of_size hsigned hn }
  · exact { h with context := lt_of_size hsigned hn }
  · exact { h with entries := lt_of_size hsigned hn }
  · exact { h with depth := lt_of_size hsigned hn }

/-- A signed word holds every number of the index. -/
structure IndexSettings.Bounded (s : IndexSettings) : Prop where
  chunk : s.chunkSize < 2 ^ 63
  overlap : s.chunkOverlap < 2 ^ 63
  files : s.fileBatchSize < 2 ^ 63
  texts : s.embedBatchSize < 2 ^ 63

theorem IndexSettings.keeps_bounded : IndexSettings.shape.Keeps Bounded := by
  intro field mem v before after hsigned h hset
  simp only [IndexSettings.shape, List.mem_cons, List.not_mem_nil, or_false] at mem
  rcases mem with rfl | rfl | rfl | rfl | rfl | rfl | rfl
  all_goals obtain ⟨n, hn, rfl⟩ := exists_of_setting hset
  · exact { h with }
  · exact { h with chunk := lt_of_size hsigned hn }
  · exact { h with overlap := lt_of_size hsigned hn }
  · exact { h with files := lt_of_size hsigned hn }
  · exact { h with texts := lt_of_size hsigned hn }
  · exact { h with }
  · exact { h with }

/-- A signed word holds every number of the embeddings. -/
structure EmbeddingSettings.Bounded (s : EmbeddingSettings) : Prop where
  timeout : s.timeoutSecs < 2 ^ 63
  dims : s.dims < 2 ^ 63

theorem EmbeddingSettings.keeps_bounded : EmbeddingSettings.shape.Keeps Bounded := by
  intro field mem v before after hsigned h hset
  simp only [EmbeddingSettings.shape, List.mem_cons, List.not_mem_nil, or_false] at mem
  rcases mem with rfl | rfl | rfl | rfl | rfl | rfl
  all_goals obtain ⟨n, hn, rfl⟩ := exists_of_setting hset
  · exact { h with }
  · exact { h with }
  · exact { h with }
  · exact { h with }
  · exact { h with timeout := lt_of_word hsigned hn }
  · exact { h with dims := lt_of_size hsigned hn }

/-- A signed word holds every number of the generation. -/
structure GenerationSettings.Bounded (s : GenerationSettings) : Prop where
  tokens : s.maxTokens < 2 ^ 63
  timeout : s.timeoutSecs < 2 ^ 63

theorem GenerationSettings.keeps_bounded : GenerationSettings.shape.Keeps Bounded := by
  intro field mem v before after hsigned h hset
  simp only [GenerationSettings.shape, List.mem_cons, List.not_mem_nil, or_false] at mem
  rcases mem with rfl | rfl | rfl | rfl | rfl | rfl
  all_goals obtain ⟨n, hn, rfl⟩ := exists_of_setting hset
  · exact { h with }
  · exact { h with }
  · exact { h with }
  · exact { h with }
  · exact { h with tokens := lt_of_size hsigned hn }
  · exact { h with timeout := lt_of_word hsigned hn }

/-- A signed word holds every limit of the shell. -/
structure ShellSettings.Bounded (s : ShellSettings) : Prop where
  timeout : s.timeoutSecs < 2 ^ 63
  output : s.maxOutputChars < 2 ^ 63

theorem ShellSettings.keeps_bounded : ShellSettings.shape.Keeps Bounded := by
  intro field mem v before after hsigned h hset
  simp only [ShellSettings.shape, List.mem_cons, List.not_mem_nil, or_false] at mem
  rcases mem with rfl | rfl
  all_goals obtain ⟨n, hn, rfl⟩ := exists_of_setting hset
  · exact { h with timeout := lt_of_word hsigned hn }
  · exact { h with output := lt_of_size hsigned hn }

/-- A signed word holds every number of the configuration. -/
structure Bounded (c : Config) : Prop where
  editor : c.editor.Bounded
  index : c.index.Bounded
  embedding : c.embedding.Bounded
  generation : c.generation.Bounded
  shell : c.shell.Bounded

theorem bounded_default (home : String) : (default home).Bounded := by
  refine ⟨⟨?_, ?_, ?_, ?_⟩, ⟨?_, ?_, ?_, ?_⟩, ⟨?_, ?_⟩, ⟨?_, ?_⟩, ⟨?_, ?_⟩⟩ <;>
    simp [default]

theorem keeps_bounded (home : String) : (shape home).Keeps Bounded := by
  have hblank := bounded_default home
  intro field mem v before after hsigned h hset
  simp only [shape, List.mem_cons, List.not_mem_nil, or_false] at mem
  rcases mem with rfl | rfl | rfl | rfl | rfl | rfl | rfl
  all_goals obtain ⟨x, hx, rfl⟩ := exists_of_setting hset
  · exact { h with }
  · exact { h with
      editor := Shape.decode_keeps EditorSettings.keeps_bounded hblank.editor hsigned hx }
  · exact { h with
      index := Shape.decode_keeps IndexSettings.keeps_bounded hblank.index hsigned hx }
  · exact { h with
      embedding := Shape.decode_keeps EmbeddingSettings.keeps_bounded hblank.embedding hsigned hx }
  · exact { h with
      generation :=
        Shape.decode_keeps GenerationSettings.keeps_bounded hblank.generation hsigned hx }
  · exact { h with
      shell := Shape.decode_keeps ShellSettings.keeps_bounded hblank.shell hsigned hx }
  · exact { h with }

/-- **The numbers of an accepted configuration are bounded.** -/
theorem bounded_of_parse {home text : String} {c : Config} (h : parse home text = .ok c) :
    c.Bounded := by
  unfold parse at h
  split at h
  · cases h
  · next document hdocument =>
    split at h
    · cases h
    · next read hread =>
      have hbounded := Shape.decode_keeps (keeps_bounded home) (bounded_default home)
        (Toml.signed_of_parse? hdocument) hread
      split at h
      · cases h
      · exact Except.ok.inj h ▸ hbounded

/-- Nothing is wrong with the index of a valid configuration. -/
theorem Valid.indexFault?_eq_none {c : Config} (h : c.Valid) : indexFault? c.index = none := by
  simp only [Valid, fault?, Option.orElse_eq_none] at h
  exact h.2.1

/-- **Chunks and batches are not empty** in a valid configuration. -/
theorem Valid.index_pos {c : Config} (h : c.Valid) :
    0 < c.index.chunkSize ∧ 0 < c.index.fileBatchSize ∧ 0 < c.index.embedBatchSize := by
  have hindex := h.indexFault?_eq_none
  unfold indexFault? at hindex
  split at hindex
  · cases hindex
  · split at hindex
    · cases hindex
    · split at hindex
      · cases hindex
      · omega

end Config

end Workbench
