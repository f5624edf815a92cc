/-
# Hashed embeddings

A text becomes a vector without a model: its tokens are hashed into a fixed
number of buckets, each adds or subtracts one in its bucket, and the result is
scaled to length one.

* `Hashed.tokens` — the lowercase words of a text; a word with underscores comes
  after the parts between them.
* `Hashed.embed` — the vector of a text.
-/

import Workbench.Text.Letters
import Workbench.Digest.Sha256
import Workbench.Vector.Embedding

namespace Workbench.Vector.Hashed

open Workbench.Text Workbench.Digest

/-- The maximal stretches of characters that satisfy `p`. -/
def stretches (p : Char → Bool) : List Char → List (List Char)
  | [] => []
  | c :: rest =>
      if p c then
        match rest, stretches p rest with
        | d :: _, word :: words => if p d then (c :: word) :: words else [c] :: word :: words
        | _, words => [c] :: words
      else stretches p rest

/-- The lowercase words of a text, each after its parts if it has underscores. -/
def tokens (text : String) : List String :=
  (stretches (fun c => isWordChar c || c == '_') text.toList).flatMap fun word =>
    let lower := lowercase (String.ofList word)
    let parts :=
      if lower.toList.contains '_' then
        (stretches (· != '_') lower.toList).map String.ofList
      else []
    parts ++ [lower]

/-- A number from its bytes, least significant first. -/
def littleEndian : Octets → Nat
  | [] => 0
  | b :: rest => b.toNat + 256 * littleEndian rest

/-- The bucket of a token, and whether it counts against the bucket. -/
def bucket (size : Nat) (token : String) : Nat × Bool :=
  let digest := Sha256.digest (Octets.ofText token)
  (littleEndian (digest.take 8) % size, (digest.getD 8 0).toNat % 2 == 1)

/-- Adds a token to the vector. -/
def count (vector : Array Single) (token : String) : Array Single :=
  let (i, against) := bucket vector.size token
  let unit : Single := if against then ⟨0xBF800000⟩ else Single.one
  vector.modify i (·.add unit)

/-- The number of buckets asked for, at least one. -/
def buckets (dims : Nat) : Nat := max dims 1

/-- The vector of a text. -/
def embed (dims : Nat) (text : String) : Embedding :=
  let counts := ((tokens text).foldl count (Array.replicate (buckets dims) Single.zero)).toList
  let norm := Embedding.norm counts
  if norm.compare? Single.zero = some .gt then counts.map (·.div norm) else counts

/-- The name of the model with so many buckets. -/
def modelName (dims : Nat) : String :=
  "hashed-" ++ toString (buckets dims)

end Workbench.Vector.Hashed
