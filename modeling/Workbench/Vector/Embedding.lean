/-
# Embeddings

An embedding is a list of single-precision numbers. Two embeddings are compared
by the cosine of the angle between them, and an embedding is stored as its
bytes, four for each component.

* `Embedding.cosine` — the similarity; 0 when the lengths differ or a norm is 0.
* `Embedding.toBlob`, `Embedding.ofBlob?` — the stored form and its reading.
-/

import Workbench.Vector.Single

namespace Workbench.Vector

open Workbench.Text

/-- A vector of single-precision components. -/
abbrev Embedding := List Single

namespace Embedding

/-- The sum of the products of components. -/
def dot (a b : Embedding) : Single :=
  Single.sum (List.zipWith Single.mul a b)

/-- The length of a vector. -/
def norm (a : Embedding) : Single :=
  (dot a a).sqrt

/-- The cosine of the angle between two vectors. -/
def cosine (a b : Embedding) : Single :=
  if a.length ≠ b.length ∨ a = [] then Single.zero
  else if (norm a).isZero || (norm b).isZero then Single.zero
  else (dot a b).div ((norm a).mul (norm b))

/-- The stored form: the bytes of the components. -/
def toBlob (a : Embedding) : Octets :=
  a.flatMap Single.toOctets

/-- Reads a stored form, four bytes at a time; bytes left over make it no embedding. -/
def ofBlob? : Octets → Option Embedding
  | [] => some []
  | b0 :: b1 :: b2 :: b3 :: rest => (ofBlob? rest).map (Single.ofOctets b0 b1 b2 b3 :: ·)
  | _ => none

/-- The components that are not zero, each with its position. -/
def nonzero (a : Embedding) : List (Nat × Single) :=
  a.zipIdx.filterMap fun (x, i) => if x.isZero then none else some (i, x)

end Embedding

end Workbench.Vector
