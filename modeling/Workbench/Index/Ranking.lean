/-
# Ranking

The candidates of a search, the most similar first. Candidates of equal similarity
keep their order, and one whose similarity is no number is not moved past others. The last
holds of up to twenty candidates (`insertionLimit`): no more are sorted by putting each in its
place, and what becomes of more is only determined if all similarities are numbers.

* `ranked` — all candidates in order.
* `top` — the first of them.
-/

import Workbench.Index.Explanation
import Workbench.Collection.Store

namespace Workbench.Index

open Workbench.Vector Workbench.Collection

/-- The first score is less than the second. -/
def isLess (a b : Single) : Bool :=
  a.compare? b == some .lt

/-- Puts a candidate in its place among others, of which the last ranked comes first: it
moves past those with a smaller score. -/
def place {α : Type} (score : α → Single) (x : α) : List α → List α
  | [] => [x]
  | y :: rest => if isLess (score y) (score x) then y :: place score x rest else x :: y :: rest

/-- The most candidates that are sorted by putting each in its place, whatever their scores
are. The order of more is determined by their scores where all of those are numbers. -/
def insertionLimit : Nat := 20

/-- Candidates in descending order of their scores. -/
def ranked {α : Type} (score : α → Single) (candidates : List α) : List α :=
  (candidates.foldl (fun placed x => place score x placed) []).reverse

/-- The hit of a chunk. -/
def hitOf (c : StoredChunk) (score : Single) : Hit :=
  ⟨c.path, c.name, c.kind, c.index.toNat, c.text, score⟩

/-- The `k` chunks that are most similar to a query. -/
def top (query : Embedding) (chunks : List StoredChunk) (k : Nat) : List Hit :=
  (ranked Hit.score (chunks.map fun c => hitOf c (Embedding.cosine query c.embedding))).take k

end Workbench.Index
