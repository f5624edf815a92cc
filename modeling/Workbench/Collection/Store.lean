/-
# Stored collections

A collection lies in a directory of its own, in a database. A store is a hold on
such a database: it keeps seeing the database it was opened on, also when that is
removed, or another one is put in its place.

* `Store.create`, `Store.open?` — get hold of a database.
* `Store.description`, `Store.chunks`, `Store.counts` — read it; a row that was not
  written by `Store.insert` may turn out to be damaged.
* `Store.insert`, `Store.setDims` — write to it.

Numbers of chunks are unsigned words of a machine and are written as signed ones, which
turns those that are too large into negative ones, and back again.
-/

import Workbench.Calendar.Moment
import Workbench.Files.Access
import Workbench.Index.Fault
import Workbench.Code.Unit

namespace Workbench.Collection

open Workbench.Files Workbench.Index Workbench.Vector Workbench.Calendar Workbench.Code

/-- What tells a collection from all others, and when it is made. -/
structure Stamp where
  serial : Nat
  created : String
  deriving DecidableEq, Repr

/-- A hold on a database. -/
structure Store where
  /-- The directory of the collection, as written. -/
  location : String
  /-- What the database held when the store was opened; none if it was no database. -/
  held : Option Table
  deriving DecidableEq, Repr

/-- A chunk that is stored with its embedding. -/
structure StoredChunk where
  path : String
  name : Option String
  kind : UnitKind
  index : UInt64
  offset : UInt64
  text : String
  embedding : Embedding
  deriving DecidableEq, Repr

/-- The row of a chunk. -/
def StoredChunk.row (c : StoredChunk) : Row :=
  ⟨c.path, c.kind.text, c.name, c.index.toInt64, c.offset.toInt64, c.text,
    Embedding.toBlob c.embedding⟩

/-- The chunk of a row. -/
def Row.chunk (r : Row) : Except Damage StoredChunk :=
  match Embedding.ofBlob? r.blob with
  | none => .error (.vector r.path r.index r.blob.length)
  | some embedding =>
      match UnitKind.ofText? r.kind with
      | none => .error (.kind r.kind)
      | some kind =>
          .ok ⟨r.path, r.name, kind, r.index.toUInt64, r.offset.toUInt64, r.text, embedding⟩

/-- The number of rows of a kind. -/
def Table.count (t : Table) (kind : UnitKind) : Nat :=
  t.rows.countP (·.kind == kind.text)

namespace Store

/-- Where the database of a collection in a directory is. -/
def file (location : String) : String :=
  Path.below location "index.db"

/-- The database in a directory, if there is one. -/
def databaseAt (tree : Tree) (location : String) : Option Table :=
  match tree.read (file location) with
  | .ok (.database table) => some table
  | _ => none

/-- Opens the database in a directory; none if there is no file for it. -/
def open? (tree : Tree) (location : String) : Option Store :=
  match tree.stat (file location) with
  | .ok (.file _ _) => some ⟨location, databaseAt tree location⟩
  | _ => none

/-- What a database holds that gets this description: its rows, if it is there. -/
def initial (stamp : Stamp) (description : Description) : Option Content → Option Table
  | none => some ⟨stamp.serial, some description, []⟩
  | some (.text "") => some ⟨stamp.serial, some description, []⟩
  | some (.database old) => some { old with description := some description }
  | some _ => none

/-- Makes a database in a directory, or describes the one there anew. -/
def create (tree : Tree) (location : String) (stamp : Stamp) (description : Description) :
    Except IndexFault Store × Tree :=
  match tree.makeDirectoriesTo location with
  | (some fault, tree) => (.error (.access location fault), tree)
  | (none, tree) =>
      match tree.read (file location) with
      | .error .isDirectory => (.error (.storage (.unopened (file location))), tree)
      | found =>
          match initial stamp description found.toOption with
          | none => (.error (.storage .notADatabase), tree)
          | some table =>
              match tree.write (file location) (.database table) with
              | .ok tree => (.ok ⟨location, some table⟩, tree)
              | .error _ => (.error (.storage (.unopened (file location))), tree)

/-- The table of the chunks. -/
def chunkTable : String := "chunks"

/-- The table of the description. -/
def descriptionTable : String := "collection_meta"

/-- What is wrong with a file that is asked for a table and holds no database: there is
nothing in it yet, or it holds something else. -/
def absence (store : Store) (tree : Tree) (name : String) : StorageFault :=
  match tree.read (file store.location) with
  | .ok (.text "") => .noTable name
  | _ => .notADatabase

/-- What the database holds now, for a query of a table. -/
def query (store : Store) (tree : Tree) (name : String) : Except IndexFault Table :=
  match store.held with
  | none => .error (.storage (store.absence tree name))
  | some held =>
      match tree.read (file store.location) with
      | .ok (.database now) => if now.serial = held.serial then .ok now else .ok held
      | .ok _ => .error (.storage (store.absence tree name))
      | .error _ => .ok held

/-- What the database holds now. -/
def table (store : Store) (tree : Tree) : Except IndexFault Table :=
  store.query tree chunkTable

/-- Changes what the database holds. One that was moved or removed is not changed. -/
def update (store : Store) (tree : Tree) (name : String) (change : Table → Table) :
    Except IndexFault Tree := do
  let _ ← store.query tree name
  match store.held, databaseAt tree store.location with
  | some held, some now =>
      if now.serial = held.serial then
        (tree.write (file store.location) (.database (change now))).mapError
          fun _ => .storage .readOnly
      else throw (.storage .readOnly)
  | _, _ => throw (.storage .readOnly)

/-- A fault of a damaged collection. -/
def damaged (store : Store) (damage : Damage) : IndexFault :=
  .build (.damaged store.location damage)

/-- The description of the collection, and when it was made. -/
def description (store : Store) (tree : Tree) : Except IndexFault (Option (Description × Moment)) := do
  match (← store.query tree descriptionTable).description with
  | none => return none
  | some d =>
      match Moment.parse d.created with
      | .ok moment => return some (d, moment)
      | .error fault => throw (store.damaged (.moment d.created fault.message))

/-- Notes the size of the vectors. -/
def setDims (store : Store) (tree : Tree) (dims : Nat) : Except IndexFault Tree :=
  store.update tree descriptionTable fun t =>
    { t with description := t.description.map ({ · with dims }) }

/-- Adds chunks. -/
def insert (store : Store) (tree : Tree) (chunks : List StoredChunk) : Except IndexFault Tree :=
  store.update tree chunkTable fun t => { t with rows := t.rows ++ chunks.map (·.row) }

/-- The numbers of chunks of files and of definitions. -/
def counts (store : Store) (tree : Tree) : Except IndexFault (Nat × Nat) := do
  let t ← store.table tree
  return (t.count .file, t.count .definition)

/-- All chunks, in the order in which they were added. -/
def chunks (store : Store) (tree : Tree) : Except IndexFault (List StoredChunk) := do
  let t ← store.table tree
  (t.rows.mapM Row.chunk).mapError store.damaged

end Store

end Workbench.Collection
