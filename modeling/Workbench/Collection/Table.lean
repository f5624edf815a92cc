/-
# Collection tables

What the database of a collection holds: a description of the collection, and a
row for every stored chunk, in the order of their insertion. The kind of a row and
its embedding are kept as they were written, so a table can hold damage; reading
rows back is where damage is found.
-/

import Workbench.Text.Octets

namespace Workbench.Collection

open Workbench.Text

/-- What a collection holds and how it was made. -/
structure Description where
  collection : String
  project : String
  model : String
  dims : Nat
  /-- When it was made, as written. -/
  created : String
  deriving DecidableEq, Repr

/-- A stored chunk. -/
structure Row where
  path : String
  /-- The written form of what the chunk is a part of. -/
  kind : String
  name : Option String
  index : Int64
  offset : Int64
  text : String
  /-- The stored form of the embedding. -/
  blob : Octets
  deriving DecidableEq, Repr

/-- The contents of a database. -/
structure Table where
  /-- Tells a database from another that later takes its place. -/
  serial : Nat
  description : Option Description
  rows : List Row
  deriving DecidableEq, Repr

end Workbench.Collection
