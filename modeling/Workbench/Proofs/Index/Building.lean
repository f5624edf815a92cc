/-
# Building a collection

A collection is built in a directory beside its place and moved there. Where the way to the
location stays the same (`Steady`) the directory is new and empty when the build begins, and
what is moved is found at the location: so the collection holds the rows of all sources, and
nothing else.

* `Granted` — what a build asks of the file system.
* `CodebaseIndex.build_stores` — **what a build stores**, in whichever batches.
* `CodebaseIndex.build_unsteady` — with a `..` after a directory that is not there, rows of
  an earlier build may stay, or the collection may not be found.
-/

import Mathlib
import Workbench.Proofs.Files.Remains
import Workbench.Proofs.Index.Ending
import Workbench.Proofs.Index.Rows
import Workbench.Proofs.Index.Sources

namespace Workbench.Index

open Workbench.Files Workbench.Files.Tree Workbench.Collection Workbench.Code Workbench.Vector

/-- What a build asks of the file system is done: what is left of an earlier build is
cleared away, the directory to build in is made, a file can be written and the sources can
be read then, and the directory can be moved. -/
structure Granted (tree ready : Tree) (location : String) (files : List Source) : Prop where
  made : ∃ cleared, removeIfThere tree (staging location) = .ok cleared ∧
    cleared.makeDirectoriesTo (staging location) = (none, ready)
  written : (ready.write (Store.file (staging location)) (.text "")).isOk = true
  read : ∀ s ∈ files, (s.read ready).isOk = true
  renamed : (ready.rename (staging location) location).isOk = true

variable {tree cleared ready : Tree} {location : String} {files : List Source} {dir : List String}
  {name : String}

/-! ### What is read -/

/-- What a source held is read from it during the build. -/
theorem read_written {content : Source → String} {s : Source} {place : Path} {mode : Nat}
    {held : Table} {entry : Entry} (hwf : tree.WellFormed) (hremains : tree.Remains ready)
    (hfile : tree.get? s.place = some entry) (hentry : entry.isFile = true)
    (hbefore : s.read tree = .ok (content s)) (hready : (s.read ready).isOk = true)
    (hfree : ready.get? place = none) :
    s.read (Store.written ready place mode held) = .ok (content s) := by
  obtain ⟨mode', found, rfl⟩ : ∃ mode content, entry = .file mode content := by
    cases entry with
    | file mode content => exact ⟨mode, content, rfl⟩
    | directory mode => simp [Entry.isFile] at hentry
    | link target => simp [Entry.isFile] at hentry
  obtain ⟨text, htext⟩ := Attempt.isOk_iff.mp hready
  simp only [Source.read, Attempt.mapError_eq_ok_iff] at hbefore htext ⊢
  have hsame := hremains.readText hwf hfile htext
  obtain rfl : text = content s := by simpa [hbefore] using hsame.symm
  exact readText_put (hwf.plain hfile) hfree rfl htext

/-! ### A collection that is built -/

namespace CodebaseIndex

variable {σ : Type} {ix : CodebaseIndex σ} {f : String → Embedding} {content : Source → String}

/-- The database of a collection in which there are the rows of some sources. -/
def databaseOf (ix : CodebaseIndex σ) (f : String → Embedding) (content : Source → String)
    (stamp : Stamp) (root : Path) (collection : String) (files : List Source) : Table :=
  ⟨stamp.serial,
    some { ix.describe root collection stamp with
      dims := ix.notedDims f (files.flatMap (ix.sourceRows f content)) },
    files.flatMap (ix.sourceRows f content)⟩

theorem tableAfter_eq (stamp : Stamp) (root : Path) (collection : String) (files : List Source) :
    ix.tableAfter f ⟨stamp.serial, some (ix.describe root collection stamp), []⟩
        (files.flatMap (ix.sourceChunks content)) =
      ix.databaseOf f content stamp root collection files := by
  simp only [tableAfter, databaseOf, dimsAfter_eq, List.map_flatMap, map_row_sourceChunks,
    Option.map_some, List.nil_append]

/-- **A collection that is not there is built** and moved to its place. -/
theorem exists_buildNew (ix : CodebaseIndex σ) (stamp : Stamp) (root : Path) (collection : String)
    (hembed : ∀ texts state, (ix.embedder.embed texts state).1 = .ok (texts.map f))
    (hwf : tree.WellFormed) (hhere : tree.HasDirectory tree.here)
    (hplaced : Placed location dir name) (hsteady : Steady tree location)
    (hgranted : Granted tree ready location files)
    (hparses : ∀ s ∈ files, ix.Parses content s)
    (hfile : ∀ s ∈ files, ∃ mode content, tree.get? s.place = some (.file mode content))
    (hcontent : ∀ s ∈ files, s.read tree = .ok (content s)) (state : σ) :
    ∃ store after final, ix.buildNew stamp location root collection files tree state =
        (.ok ⟨collection, location, some store, ix.embedder⟩, after, final) ∧
      store.table after = .ok (ix.databaseOf f content stamp root collection files) := by
  obtain ⟨cleared, hremove, hmake⟩ := hgranted.made
  obtain ⟨mid, base, hbegun⟩ := exists_begun hwf (hasDirectory_start hhere location) hplaced hsteady hremove hmake
  have hremains : tree.Remains ready :=
    (Remains.of_cleared (cleared_of_removeIfThere hremove)).trans (Remains.makeDirectoriesTo hmake)
  have hgiven : Path.Given (Store.file (staging location)) := by
    obtain ⟨after, hwrite⟩ := Attempt.isOk_iff.mp hgranted.written
    rcases write_eq_ok_iff.mp hwrite with ⟨_, _, _, hfind, -⟩ | ⟨_, hfind, -⟩
    · exact (find_eq_ok_iff.mp hfind).1
    · exact (find_eq_ok_iff.mp hfind).1
  have hempty := hbegun.find_file hplaced hgiven
  -- The chunks are stored in a new database.
  have hinitial : Store.initial stamp (ix.describe root collection stamp)
      (ready.read (Store.file (staging location))).toOption =
        some ⟨stamp.serial, some (ix.describe root collection stamp), []⟩ := by
    simp [Tree.read, stat, hempty, Except.toOption, Store.initial]
  obtain ⟨place, mode, final, hholds, -, hbuild⟩ := exists_buildInto hembed hparses hmake
    hinitial (write_eq_ok_iff.mpr (.inr ⟨_, hempty, rfl⟩))
    (fun place mode held hholds s hs => by
      obtain ⟨_, _, hsome⟩ := hfile s hs
      exact read_written hwf hremains hsome rfl (hcontent s hs) (hgranted.read s hs)
        (hbegun.place_eq hplaced rfl hholds).2.2) state
  obtain ⟨-, rfl, -⟩ := hbegun.place_eq hplaced rfl hholds
  rw [tableAfter_eq] at hbuild
  obtain ⟨hinstall, hfound⟩ := install_eq ix collection hbegun hplaced hgiven hgranted.renamed mode
    (ix.databaseOf f content stamp root collection files)
  refine ⟨_, _, final, ?_, Store.table_eq hfound⟩
  simp only [buildNew, hremove, hbuild, hinstall]

/-- The index with other sizes of batches. -/
def withBatches (ix : CodebaseIndex σ) (fileBatch embedBatch : ℕ+) : CodebaseIndex σ :=
  { ix with settings :=
    { ix.settings with fileBatchSize := fileBatch, embedBatchSize := embedBatch } }

theorem locate_withBatches (ix : CodebaseIndex σ) (fileBatch embedBatch : ℕ+) (tree : Tree)
    (root : Path) (collection : String) :
    (ix.withBatches fileBatch embedBatch).locate tree root collection =
      ix.locate tree root collection := rfl

theorem languages_withBatches (ix : CodebaseIndex σ) (fileBatch embedBatch : ℕ+) :
    (ix.withBatches fileBatch embedBatch).languages = ix.languages := rfl

/-- **What a build stores.** Whatever the sizes of the batches are, and whatever definitions
the grammars find, a collection that is not there is built, and its database holds the rows of
the sources in the order of their paths, the size of the vectors, and nothing else; the rows of
whole files give back what the files hold, as far as a machine can count its bytes. -/
theorem build_stores (ix : CodebaseIndex σ) (f : String → Embedding) (content : Source → String)
    (stamp : Stamp) (tree ready : Tree) (project collection location : String) (root : Path)
    (state : σ) (fileBatch embedBatch : ℕ+)
    (hembed : ∀ texts state, (ix.embedder.embed texts state).1 = .ok (texts.map f))
    (hwf : tree.WellFormed) (hhere : tree.HasDirectory tree.here)
    (hroot : projectRoot tree project = .ok root)
    (hnames : ∀ e ∈ tree.below root, ∀ name ∈ e.1, '\\' ∉ name.toList)
    (hcontent : ∀ s ∈ sources ix.languages tree root, s.read tree = .ok (content s))
    (hgrammars : ∀ s ∈ sources ix.languages tree root, ∀ language,
      ix.languages.get? s.extension = some language →
        language.fault? s.path (content s).toList = none)
    (hlocation : ix.persistDir tree project collection = .ok location)
    (hnew : tree.isThere location = false)
    (hgranted : Granted tree ready location (sources ix.languages tree root))
    (hsteady : Steady tree location) :
    (sources ix.languages tree root).Pairwise (fun a b => a.path < b.path) ∧
    (∃ store after final,
      (ix.withBatches fileBatch embedBatch).build stamp tree project collection state =
        ⟨.ok ⟨collection, location, some store, ix.embedder⟩, after, final, 1⟩ ∧
      store.table after = .ok
        (ix.databaseOf f content stamp root collection (sources ix.languages tree root))) ∧
    ∀ s ∈ sources ix.languages tree root, (content s).utf8ByteSize ≤ 2 ^ 64 →
      Text.reassemble? (((ix.databaseOf f content stamp root collection
        (sources ix.languages tree root)).rows.filter fun r =>
          r.kind == UnitKind.file.text && r.path == s.path).map pieceOf) = some (content s) := by
  have hsorted : (sources ix.languages tree root).Pairwise fun a b => a.path < b.path :=
    pairwise_sources hwf hhere hroot hnames
  have hmem (s : Source) (hs : s ∈ sources ix.languages tree root) :
      (∃ mode content, tree.get? s.place = some (.file mode content)) ∧
        (ix.languages.get? s.extension).isSome = true := by
    obtain ⟨_, hfind, -⟩ := find_projectRoot hwf hhere hroot
    obtain ⟨names, mode, found, hentry, -, -, hsource⟩ := (mem_sources_iff hwf hfind).mp hs
    obtain ⟨-, _, _, -, -, hlanguage, rfl⟩ := sourceOf?_eq_some_iff.mp hsource
    exact ⟨⟨mode, found, hentry⟩, hlanguage⟩
  obtain ⟨mode, -, hdir⟩ := find_projectRoot hwf hhere hroot
  obtain ⟨scanned, hlocate⟩ :
      ∃ scanned, ix.locate tree root collection = .ok (location, scanned) := by
    simpa [persistDir, hroot, Attempt.bind_eq_ok_iff] using hlocation
  obtain ⟨hscanned, d, hdigest, hwhere⟩ := locate_eq_ok hlocate
  obtain ⟨dir, name, hplaced⟩ := exists_placed (hwf.plain hdir) hdigest ix.runtimeDir collection
  rw [hwhere] at hplaced
  have hparses (s : Source) (hs : s ∈ sources ix.languages tree root) : ix.Parses content s := by
    obtain ⟨language, hget⟩ := Option.isSome_iff_exists.mp (hmem s hs).2
    exact ⟨language, hget, hgrammars s hs language hget⟩
  refine ⟨hsorted, ?_, fun s hs hfits => ?_⟩
  · obtain ⟨store, after, final, hbuild, htable⟩ :=
      exists_buildNew (ix.withBatches fileBatch embedBatch) stamp root collection hembed hwf hhere
        hplaced hsteady hgranted hparses (fun s hs => (hmem s hs).1) hcontent state
    rw [← languages_withBatches ix fileBatch embedBatch] at hscanned hbuild
    rw [← locate_withBatches ix fileBatch embedBatch] at hlocate
    refine ⟨store, after, final, ?_, htable⟩
    rw [build_eq_of_new hroot hlocate hscanned hnew, hbuild]
    rfl
  · exact reassemble?_sourceRows (hsorted.imp fun h => h.ne) (hmem s hs).2 hs hfits

/-! ### A sample -/

/-- A vector with the length of the text. -/
def sampleVector (text : String) : Embedding :=
  [⟨UInt32.ofNat text.length⟩]

/-- An index of which the embedder does not tell the size of its vectors. -/
def sampleIndex : CodebaseIndex Unit :=
  ⟨"/r", {}, ⟨"sample", 0, fun texts _ => (.ok (texts.map sampleVector), ())⟩, .plain⟩

/-- A project with two sources. -/
def sourceTree : Tree :=
  ⟨[(["p"], .directory 0o755), (["p", "b.py"], .file 0o644 (.text "y\n")),
    (["p", "a.py"], .file 0o644 (.text "x\n"))], []⟩

/-- A project beside which a build of a collection was given up. -/
def staleTree : Tree :=
  ⟨[(["p"], .directory 0o755), (["p", "a.py"], .file 0o644 (.text "x\n")),
    (["r"], .directory 0o755), (["r", "x_p.partial"], .directory 0o755),
    (["r", "x_p.partial", "index.db"], .file 0o644 (.database ⟨7, none,
      [⟨"gone.py", "file", none, 0, 0, "old\n", []⟩]⟩))], []⟩

theorem sources_sourceTree :
    sources sampleIndex.languages sourceTree ["p"] =
      [⟨["p", "a.py"], "a.py", "py"⟩, ⟨["p", "b.py"], "b.py", "py"⟩] := by
  cbv

theorem sources_staleTree :
    sources sampleIndex.languages staleTree ["p"] = [⟨["p", "a.py"], "a.py", "py"⟩] :=
  sources_eq_singleton (by cbv)

theorem build_stores_sourceTree :
    ∃ store after final,
      (sampleIndex.withBatches 1 1).build ⟨1, "now"⟩ sourceTree "/p" "x" () =
        ⟨.ok ⟨"x", "/r/x_p", some store, sampleIndex.embedder⟩, after, final, 1⟩ ∧
      store.table after = .ok ⟨1, some ⟨"x", "p", "sample", 1, "now"⟩,
        [⟨"a.py", "file", none, 0, 0, "x\n", [2, 0, 0, 0]⟩,
          ⟨"b.py", "file", none, 0, 0, "y\n", [2, 0, 0, 0]⟩]⟩ := by
  have hgranted : Granted sourceTree (sourceTree.makeDirectoriesTo "/r/x_p.partial").2 "/r/x_p"
      (sources sampleIndex.languages sourceTree ["p"]) :=
    ⟨⟨sourceTree, by decide +kernel, by decide +kernel⟩, by decide +kernel,
      by rw [sources_sourceTree]; decide +kernel, by decide +kernel⟩
  have hread (s : Source) (hs : s ∈ sources sampleIndex.languages sourceTree ["p"])
      (language : Language) (hget : sampleIndex.languages.get? s.extension = some language) :
      language.fault? s.path
        (if s.path = "a.py" then "x\n" else "y\n" : String).toList = none := by
    rw [sources_sourceTree] at hs
    have hpython : s.extension = "py" := by
      rcases List.mem_pair.mp hs with rfl | rfl <;> rfl
    rw [hpython] at hget
    obtain rfl : Language.python .plain = language := Option.some.inj hget
    rfl
  obtain ⟨-, ⟨store, after, final, hbuild, htable⟩, -⟩ :=
    build_stores sampleIndex sampleVector (fun s => if s.path = "a.py" then "x\n" else "y\n")
      ⟨1, "now"⟩ sourceTree _ "/p" "x" "/r/x_p" ["p"] () 1 1 (fun _ _ => rfl) (by decide)
      (by decide) (by decide +kernel) (by decide)
      (by rw [sources_sourceTree]; decide +kernel) hread (by decide +kernel) (by decide +kernel)
      hgranted (.inl (by decide +kernel))
  refine ⟨store, after, final, hbuild, htable.trans ?_⟩
  rw [sources_sourceTree]
  decide +kernel

/-- Where a directory on the way is only made by the build, **rows of an earlier build** stay
among those of the collection, or the collection is not found where it was moved to. -/
theorem build_unsteady :
    (Store.rowsAt (sampleIndex.build ⟨1, "now"⟩ staleTree "/p" "new/../x" ()).tree
        "/r/new/../x_p").map (·.path) = ["gone.py", "a.py"] ∧
    (sampleIndex.build ⟨1, "now"⟩ sourceTree "/p" "x_p.partial/../x" ()).result.map (fun _ => ()) =
      .error (.build (.vanished "/r/x_p.partial/../x_p")) := by
  constructor
  · rw [build_eq_of_new (by decide +kernel : projectRoot staleTree "/p" = .ok ["p"])
      (by decide +kernel : sampleIndex.locate staleTree ["p"] "new/../x" =
        .ok ("/r/new/../x_p", none))
      sources_staleTree (by decide +kernel)]
    decide +kernel
  · rw [build_eq_of_new (by decide +kernel : projectRoot sourceTree "/p" = .ok ["p"])
      (by decide +kernel : sampleIndex.locate sourceTree ["p"] "x_p.partial/../x" =
        .ok ("/r/x_p.partial/../x_p", none)) sources_sourceTree (by decide +kernel)]
    decide +kernel

end CodebaseIndex

end Workbench.Index
