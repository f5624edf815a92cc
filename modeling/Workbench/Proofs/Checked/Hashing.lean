/-
# Hashed embeddings, with every step checked

A token is hashed into a bucket by the remainder of a word from its digest. There is one
bucket at least, so that there is a remainder and it is the number of a bucket; and a digest
has all the bytes that are looked at.

* `Checked.hashed` — the vector of a text, with every step checked.
* `Embedder.Suits` — an embedder hashes, if that is what the settings ask for.
* `Checked.embed_eq` — **no step is out of range** in embedding with any such embedder.
-/

import Workbench.Proofs.Checked.Word
import Workbench.Proofs.Index.Placing
import Workbench.Service.Embedder

namespace Workbench

open Workbench.Text Workbench.Digest Workbench.Vector Workbench.Service Workbench.Config

/-- The embedder hashes, with the size of the settings, if these ask for hashing. What another
embedder does comes from elsewhere. -/
def Service.Embedder.Suits {σ : Type} (s : EmbeddingSettings) (e : Embedder σ) : Prop :=
  s.provider = "hashed" → e = Embedder.hashed s.dims

/-- The embedder that a configuration asks for suits its settings. -/
theorem Service.Embedder.suits_of_ofSettings {σ : Type} {s : EmbeddingSettings}
    {directory : String} {env : Environment} {send : Transport σ} {load : ModelLoader σ}
    {e : Embedder σ} (h : Embedder.ofSettings s directory env send load = .ok e) : e.Suits s := by
  intro hprovider
  have hchosen : Embedder.hashed s.dims = e := by
    simpa [Embedder.ofSettings, hprovider] using h
  exact hchosen.symm

namespace Checked

/-- The bucket of a token, and whether it counts against the bucket. -/
def bucket (size : Nat) (token : String) : Checked (Nat × Bool) := do
  let digest := Sha256.digest (Octets.ofText token)
  let low ← part digest 0 8
  let i ← rem (Hashed.littleEndian low) size
  let ninth ← item digest 8
  return (i, ninth.toNat % 2 == 1)

/-- Adds a token to the vector. -/
def count (vector : Array Single) (token : String) : Checked (Array Single) := do
  let (i, against) ← bucket vector.size token
  let unit : Single := if against then ⟨0xBF800000⟩ else Single.one
  if i < vector.size then return vector.modify i (·.add unit) else .error .slice

/-- The vector of a text. -/
def hashed (dims : Nat) (text : String) : Checked Embedding := do
  let empty := Array.replicate (Hashed.buckets dims) Single.zero
  let counted ← (Hashed.tokens text).foldlM count empty
  let counts := counted.toList
  let norm := Embedding.norm counts
  return if norm.compare? Single.zero = some .gt then counts.map (·.div norm) else counts

/-- The vectors of texts, from an embedder that suits the settings. -/
def embed {σ : Type} (s : EmbeddingSettings) (e : Embedder σ) (texts : List String) (state : σ) :
    Checked (Except EmbeddingFault (List Embedding) × σ) :=
  if s.provider = "hashed" then do
    let vectors ← texts.mapM (hashed s.dims)
    return (.ok vectors, state)
  else .ok (e.embed texts state)

/-! ### Every step is in range -/

theorem bucket_eq {size : Nat} (hsize : 0 < size) (token : String) :
    bucket size token = .ok (Hashed.bucket size token) := by
  have hlength := Sha256.length_digest (Octets.ofText token)
  have hninth : (Sha256.digest (Octets.ofText token))[8]? =
      some ((Sha256.digest (Octets.ofText token)).getD 8 0) := by
    rw [List.getD_eq_getElem?_getD, List.getElem?_eq_getElem (by omega), Option.getD_some]
  simp only [bucket]
  rw [part_eq (Nat.zero_le 8) (by omega), Attempt.ok_bind, rem_eq hsize, Attempt.ok_bind,
    item_eq hninth]
  rfl

theorem count_eq {vector : Array Single} (hsize : 0 < vector.size) (token : String) :
    count vector token = .ok (Hashed.count vector token) := by
  have hin : (Hashed.bucket vector.size token).1 < vector.size := Nat.mod_lt _ hsize
  rw [count, bucket_eq hsize, Attempt.ok_bind]
  simp only
  rw [if_pos hin]
  rfl

theorem foldlM_count_eq {vector : Array Single} (hsize : 0 < vector.size) (tokens : List String) :
    tokens.foldlM count vector = .ok (tokens.foldl Hashed.count vector) := by
  induction tokens generalizing vector with
  | nil => rfl
  | cons token tokens ih =>
    have hcounted : 0 < (Hashed.count vector token).size := by
      simpa only [Hashed.count, Array.size_modify] using hsize
    rw [List.foldlM_cons, count_eq hsize, Attempt.ok_bind, ih hcounted, List.foldl_cons]

/-- **Every step of hashing a text is in range**, however many buckets are asked for. -/
theorem hashed_eq (dims : Nat) (text : String) :
    hashed dims text = .ok (Hashed.embed dims text) := by
  have hsize : 0 < (Array.replicate (Hashed.buckets dims) Single.zero).size := by
    rw [Array.size_replicate]
    exact Nat.le_max_right dims 1
  simp only [hashed]
  rw [foldlM_count_eq hsize]
  rfl

/-- **Every step of embedding is in range** with an embedder that suits the settings. -/
theorem embed_eq {σ : Type} {s : EmbeddingSettings} {e : Embedder σ} (suits : e.Suits s)
    (texts : List String) (state : σ) : embed s e texts state = .ok (e.embed texts state) := by
  unfold embed
  split
  · next hprovider =>
    obtain rfl := suits hprovider
    have hvectors : texts.mapM (hashed s.dims) = .ok (texts.map (Hashed.embed s.dims)) := by
      refine Attempt.mapM_eq_ok_iff.mpr ?_
      rw [List.map_map]
      exact List.map_congr_left fun text _ => hashed_eq s.dims text
    rw [hvectors]
    rfl
  · rfl

end Checked

end Workbench
