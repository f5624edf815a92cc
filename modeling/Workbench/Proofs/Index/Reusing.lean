/-
# Collections that are used again

Once a collection is there, builds and connections load it as it is: they do not look at the
project, embed nothing and write nothing. So as long as nobody touches its database, whatever
happens to the project, everyone who uses the collection keeps finding what was built, and
every search has the answer that it had right after the build.

* `Situation` — what is there while a collection is used; `Usage.Step` — what can happen then.
* `Usage.Holds.step`, `Usage.Holds.run` — the collection stays what it is.
* `Usage.reuse_pure` — **using a collection again is nothing but loading it.**
-/

import Mathlib.Logic.Relation
import Workbench.Proofs.Index.Loading

namespace Workbench

open Workbench.Files Workbench.Files.Tree Workbench.Collection Workbench.Collection.Store
  Workbench.Service Workbench.Vector Workbench.Calendar

/-- The embedder that also notes the batches that it is asked for. -/
def Service.Embedder.noting {σ : Type} (e : Embedder σ) : Embedder (σ × List (List String)) where
  model := e.model
  dims := e.dims
  embed texts state :=
    ((e.embed texts state.1).1, ((e.embed texts state.1).2, state.2 ++ [texts]))

namespace Index

/-! ### The users of a collection -/

/-- What all users of a collection agree on: where it lies and what it is called, of which
project it is, and the model with its vectors. -/
structure Usage where
  runtimeDir : String
  root : Path
  plain : Path.Plain root
  collection : String
  model : String
  answer : List String → Except EmbeddingFault (List Embedding)

/-- Where the collection lies. -/
def Usage.location (u : Usage) : String :=
  Index.location u.runtimeDir u.root u.collection none

/-- An index uses the collection: without a digest in the name, and with the same model. -/
structure CodebaseIndex.Uses {σ : Type} (ix : CodebaseIndex σ) (u : Usage) : Prop where
  runtimeDir : ix.runtimeDir = u.runtimeDir
  unkeyed : ix.settings.contentHashKey = false
  model : ix.embedder.model = u.model
  answer : ∀ texts state, (ix.embedder.embed texts state).1 = u.answer texts

/-- The index whose embedder notes the batches that it is asked for. -/
def CodebaseIndex.noting {σ : Type} (ix : CodebaseIndex σ) :
    CodebaseIndex (σ × List (List String)) :=
  ⟨ix.runtimeDir, ix.settings, ix.embedder.noting, ix.grammars⟩

/-- A project has the name of the one that the collection is of, if it is there at all. -/
def Usage.Named (u : Usage) (tree : Tree) (project : String) : Prop :=
  ∀ root, projectRoot tree project = .ok root → Project.nameOf root = Project.nameOf u.root

/-- What is there while a collection is used: a tree, the state of the embedders with the
batches that they were asked for, and the retrievers that were handed out. -/
structure Situation (σ : Type) where
  tree : Tree
  state : σ × List (List String)
  retrievers : List (Retriever (σ × List (List String)))

/-- The situation with the retriever that was handed out, if there is one. -/
def Situation.handing {σ : Type} (s : Situation σ)
    (result : Except IndexFault (Retriever (σ × List (List String)))) : Situation σ :=
  { s with retrievers := result.toOption.toList ++ s.retrievers }

/-- **What can happen** while a collection is used: builds and connections by any of its users,
searches through any of the retrievers, and changes that leave its database alone, like those
of the project's files (`Tree.leavesAlone_of_apart`). -/
inductive Usage.Step {σ : Type} (u : Usage) : Situation σ → Situation σ → Prop where
  | build {s : Situation σ} (ix : CodebaseIndex σ) (stamp : Stamp) (project : String) :
      ix.Uses u → u.Named s.tree project →
      u.Step s (Situation.handing
        ⟨(ix.noting.build stamp s.tree project u.collection s.state).tree,
          (ix.noting.build stamp s.tree project u.collection s.state).state, s.retrievers⟩
        (ix.noting.build stamp s.tree project u.collection s.state).result)
  | connect {s : Situation σ} (ix : CodebaseIndex σ) (project : String) :
      ix.Uses u → u.Named s.tree project →
      u.Step s (s.handing (ix.noting.connect s.tree project u.collection))
  | search {s : Situation σ} {r : Retriever (σ × List (List String))} (query : String) (k : Nat) :
      r ∈ s.retrievers → u.Step s { s with state := (r.search s.tree query k s.state).2 }
  | change {s : Situation σ} (after : Tree) :
      after.WellFormed → after.HasDirectory after.here →
      LeavesAlone (Store.file u.location) s.tree after → u.Step s { s with tree := after }

/-! ### What stays -/

/-- A retriever holds a database, and embeds as the users of the collection do. -/
structure Usage.Serves {σ : Type} (u : Usage) (table : Table)
    (r : Retriever (σ × List (List String))) : Prop where
  store : r.store = some ⟨u.location, some table⟩
  answer : ∀ texts state, (r.embedder.embed texts state).1 = u.answer texts
  noted : ∀ texts state, (r.embedder.embed texts state).2.2 = state.2 ++ [texts]

/-- The database of the collection is where it should be, and every retriever holds it. -/
structure Usage.Holds {σ : Type} (u : Usage) (table : Table) (s : Situation σ) : Prop where
  wellFormed : s.tree.WellFormed
  here : s.tree.HasDirectory s.tree.here
  found : ∃ place mode,
    s.tree.find true (Store.file u.location) = .ok ⟨place, some (.file mode (.database table))⟩
  held : ∀ r ∈ s.retrievers, u.Serves table r

variable {σ τ : Type} {u : Usage} {tree other after : Tree} {table : Table} {location : String}
  {project : String} {root : Path} {s s' : Situation σ}

theorem Usage.placed (u : Usage) : ∃ dir name, Placed u.location dir name :=
  exists_placed u.plain (by simp) u.runtimeDir u.collection

/-- Where the database is found there is a directory that it lies in. -/
theorem isThere_of_database {place : Path} {entry : Entry} (hwf : tree.WellFormed)
    (hhere : tree.HasDirectory tree.here)
    (hfind : tree.find true (Store.file u.location) = .ok ⟨place, some entry⟩) :
    tree.isThere u.location = true := by
  obtain ⟨dir, name, hplaced⟩ := u.placed
  obtain ⟨hgiven, hleads⟩ := find_eq_ok_iff.mp hfind
  have hsteps : Path.steps (Store.file u.location) = Path.steps u.location ++ ["index.db"] := by
    rw [hplaced.steps_file, hplaced.steps, List.append_assoc, List.singleton_append]
  rw [hsteps, hplaced.start_eq tree (.inr (.inl rfl))] at hleads
  obtain ⟨base, hbase, hdir⟩ := hleads.above (by simp) (hasDirectory_start hhere u.location) hwf
  obtain ⟨mode, hmode⟩ := hasDirectory_iff.mp hdir
  rw [hmode] at hbase
  have hgivenAbove : Path.Given u.location :=
    Path.given_of_below hplaced.ne_empty (by decide) hgiven
  exact isThere_iff.mpr ⟨base, _, find_eq_ok_iff.mpr ⟨hgivenAbove, hbase⟩⟩

theorem Usage.Holds.there (h : u.Holds table s) : s.tree.isThere u.location = true := by
  obtain ⟨place, mode, hfind⟩ := h.found
  exact isThere_of_database h.wellFormed h.here hfind

section Found

variable {place place' : Path} {mode mode' : Nat}
  (hfind : tree.find true (Store.file location) = .ok ⟨place, some (.file mode (.database table))⟩)
  (hother : other.find true (Store.file location) =
    .ok ⟨place', some (.file mode' (.database table))⟩)

include hfind hother

/-- What is loaded depends on nothing but the database. -/
theorem reuse_congr (ix : CodebaseIndex τ) (collection : String) :
    ix.reuse tree location collection = ix.reuse other location collection := by
  simp only [CodebaseIndex.reuse, openThere, Store.open?_eq hfind, Store.open?_eq hother,
    Store.description, Store.query_eq hfind, Store.query_eq hother, Attempt.ok_bind]

end Found

/-! ### Searches -/

/-- What is found in a database. -/
def Usage.hits (u : Usage) (table : Table) (query : String) (k : Nat) :
    Except IndexFault (List Hit) :=
  if k = 0 then .ok []
  else match (table.rows.mapM Row.chunk).mapError (Store.damaged ⟨u.location, some table⟩) with
    | .error fault => .error fault
    | .ok [] => .ok []
    | .ok chunks =>
        match u.answer [query] with
        | .error fault => .error (.embedding fault)
        | .ok [] => .error (.embedding .empty)
        | .ok (embedding :: _) => .ok (top embedding chunks k)

section Searching

variable {r : Retriever (σ × List (List String))} {place : Path} {mode : Nat}
  (hserves : u.Serves table r)

include hserves

theorem embedQuery_eq (query : String) (state : σ × List (List String)) :
    (r.embedder.embedQuery query state).1 =
      (match u.answer [query] with
        | .error fault => .error fault
        | .ok [] => .error .empty
        | .ok (embedding :: _) => .ok embedding) ∧
    (r.embedder.embedQuery query state).2.2 = state.2 ++ [[query]] := by
  have hanswer := hserves.answer [query] state
  have hnoted := hserves.noted [query] state
  unfold Embedder.embedQuery
  rw [← hanswer, ← hnoted]
  generalize r.embedder.embed [query] state = asked
  obtain ⟨result, after⟩ := asked
  cases result with
  | error fault => exact ⟨rfl, rfl⟩
  | ok vectors =>
      cases vectors with
      | nil => exact ⟨rfl, rfl⟩
      | cons first rest => exact ⟨rfl, rfl⟩

/-- **A search** finds what is in the database, and asks for the vector of the query or for
nothing. -/
theorem search_eq (hfind : tree.find true (Store.file u.location) =
      .ok ⟨place, some (.file mode (.database table))⟩)
    (query : String) (k : Nat) (state : σ × List (List String)) :
    (r.search tree query k state).1 = u.hits table query k ∧
    ((r.search tree query k state).2 = state ∨
      k ≠ 0 ∧ table.rows ≠ [] ∧ (r.search tree query k state).2.2 = state.2 ++ [[query]]) := by
  unfold Retriever.search Usage.hits
  rw [hserves.store]
  by_cases hk : k = 0
  · simp [hk]
  · simp only [hk, if_false, Store.chunks, Store.table_eq hfind, Attempt.ok_bind]
    cases hrows : (table.rows.mapM Row.chunk).mapError
        (Store.damaged ⟨u.location, some table⟩) with
    | error fault => exact ⟨rfl, .inl rfl⟩
    | ok chunks =>
        cases chunks with
        | nil => exact ⟨rfl, .inl rfl⟩
        | cons first rest =>
            have hne : table.rows ≠ [] := by
              intro hnil
              rw [hnil] at hrows
              cases hrows
            obtain ⟨hanswer, hnoted⟩ := embedQuery_eq hserves query state
            generalize r.embedder.embedQuery query state = asked at hanswer hnoted ⊢
            obtain ⟨result, after⟩ := asked
            simp only at hanswer hnoted
            subst hanswer
            cases u.answer [query] with
            | error fault => exact ⟨rfl, .inr ⟨hk, hne, hnoted⟩⟩
            | ok vectors =>
                cases vectors with
                | nil => exact ⟨rfl, .inr ⟨hk, hne, hnoted⟩⟩
                | cons embedding more => exact ⟨rfl, .inr ⟨hk, hne, hnoted⟩⟩

end Searching

/-! ### Builds and connections -/

theorem CodebaseIndex.Uses.location_eq {ix : CodebaseIndex τ} (h : ix.Uses u)
    (hname : Project.nameOf root = Project.nameOf u.root) :
    Index.location ix.runtimeDir root u.collection none = u.location := by
  rw [Usage.location, Index.location, Index.location, h.runtimeDir, keyName, keyName, hname]

theorem CodebaseIndex.Uses.locate_eq {ix : CodebaseIndex τ} (h : ix.Uses u)
    (hname : Project.nameOf root = Project.nameOf u.root) (tree : Tree) :
    ix.locate tree root u.collection = .ok (u.location, none) := by
  rw [locate_eq_of_unkeyed h.unkeyed, h.location_eq hname]

theorem CodebaseIndex.Uses.noting {ix : CodebaseIndex σ} (h : ix.Uses u) : ix.noting.Uses u :=
  ⟨h.runtimeDir, h.unkeyed, h.model, fun texts state => h.answer texts state.1⟩

/-- A retriever of one of the users serves the collection. -/
theorem CodebaseIndex.Uses.serves {ix : CodebaseIndex σ} (h : ix.Uses u) (collection : String) :
    u.Serves table ⟨collection, location, some ⟨u.location, some table⟩, ix.noting.embedder⟩ :=
  ⟨rfl, fun texts state => h.answer texts state.1, fun _ _ => rfl⟩

namespace Usage.Holds

variable {ix : CodebaseIndex σ} (h : u.Holds table s) (huses : ix.Uses u)
  (hnamed : u.Named s.tree project)

include h huses hnamed

/-- **A build loads the collection** and does nothing else. -/
theorem build_eq (stamp : Stamp) :
    ix.noting.build stamp s.tree project u.collection s.state =
      ⟨projectRoot s.tree project >>= fun _ => ix.noting.reuse s.tree u.location u.collection,
        s.tree, s.state, 0⟩ := by
  cases hroot : projectRoot s.tree project with
  | error fault => simp [CodebaseIndex.build, hroot]
  | ok root =>
      have hlocate := huses.noting.locate_eq (hnamed root hroot) s.tree
      rw [CodebaseIndex.build_of_there hroot hlocate h.there]
      simp [CodebaseIndex.locateWalks, huses.noting.unkeyed]

/-- **A connection holds the database** of the collection. -/
theorem connect_eq :
    ix.noting.connect s.tree project u.collection =
      projectRoot s.tree project >>= fun _ =>
        .ok ⟨u.collection, u.location, some ⟨u.location, some table⟩, ix.noting.embedder⟩ := by
  cases hroot : projectRoot s.tree project with
  | error fault => simp [CodebaseIndex.connect, CodebaseIndex.persistDir, hroot]
  | ok root =>
      obtain ⟨place, mode, hfind⟩ := h.found
      have hlocate := huses.noting.locate_eq (hnamed root hroot) s.tree
      rw [CodebaseIndex.connect_of_there hroot hlocate h.there (Store.open?_eq hfind)]
      rfl

end Usage.Holds

/-! ### Runs -/

theorem Situation.mem_handing {result : Except IndexFault (Retriever (σ × List (List String)))}
    {r : Retriever (σ × List (List String))} :
    r ∈ (s.handing result).retrievers ↔ result = .ok r ∨ r ∈ s.retrievers := by
  cases result with
  | error fault => simp [handing, Except.toOption]
  | ok new => simp [handing, Except.toOption, eq_comm]

/-- Whoever loads the collection holds its database. -/
theorem CodebaseIndex.Uses.serves_of_reuse {ix : CodebaseIndex σ} (huses : ix.Uses u)
    {place : Path} {mode : Nat} (hfind : tree.find true (Store.file u.location) =
      .ok ⟨place, some (.file mode (.database table))⟩)
    {r : Retriever (σ × List (List String))}
    (hreuse : ix.noting.reuse tree u.location u.collection = .ok r) : u.Serves table r := by
  obtain ⟨store, d, moment, hopen, -, -, rfl⟩ := reuse_eq_ok hreuse
  obtain rfl := Option.some.inj ((Store.open?_eq hfind).symm.trans hopen)
  exact huses.serves u.collection

namespace Usage.Holds

/-- **One step** leaves the collection what it is. -/
theorem step (h : u.Holds table s) (hstep : u.Step s s') : u.Holds table s' := by
  cases hstep with
  | build ix stamp project huses hnamed =>
      obtain ⟨place, mode, hfind⟩ := h.found
      rw [h.build_eq huses hnamed]
      refine ⟨h.wellFormed, h.here, h.found, ?_⟩
      intro r hr
      rcases Situation.mem_handing.mp hr with hnew | hold
      · obtain ⟨root, -, hreuse⟩ := Attempt.bind_eq_ok_iff.mp hnew
        exact huses.serves_of_reuse hfind hreuse
      · exact h.held r hold
  | connect ix project huses hnamed =>
      rw [h.connect_eq huses hnamed]
      refine ⟨h.wellFormed, h.here, h.found, ?_⟩
      intro r hr
      rcases Situation.mem_handing.mp hr with hnew | hold
      · obtain ⟨root, -, hconnect⟩ := Attempt.bind_eq_ok_iff.mp hnew
        obtain rfl := Except.ok.inj hconnect
        exact huses.serves u.collection
      · exact h.held r hold
  | search query k hr => exact ⟨h.wellFormed, h.here, h.found, h.held⟩
  | change after hwf hhere hleaves =>
      obtain ⟨place, mode, hfind⟩ := h.found
      have hafter := hleaves.find hfind
      exact ⟨hwf, hhere, ⟨place, mode, hafter⟩, h.held⟩

/-- **A run** leaves the collection what it is. -/
theorem run (h : u.Holds table s) (hrun : Relation.ReflTransGen u.Step s s') :
    u.Holds table s' := by
  induction hrun with
  | refl => exact h
  | tail _ hstep ih => exact ih.step hstep

end Usage.Holds

/-! ### From the first build on -/

section First

variable {ix : CodebaseIndex σ} {stamp : Stamp} {state final : σ × List (List String)} {walks : Nat}
  {r : Retriever (σ × List (List String))} (huses : ix.Uses u)
  (hroot : projectRoot tree project = .ok u.root)
  (hbuild : ix.noting.build stamp tree project u.collection state = ⟨.ok r, after, final, walks⟩)

include huses hroot hbuild

/-- **The first build** leaves a database that its retriever holds. -/
theorem holds_of_build (hwf : after.WellFormed) (hhere : after.HasDirectory after.here) :
    ∃ table, u.Holds table ⟨after, final, [r]⟩ := by
  obtain ⟨table, place, mode, hfind, hr⟩ := CodebaseIndex.found_of_build hroot
    (huses.noting.locate_eq rfl tree) (by rw [hbuild])
  rw [hbuild] at hfind
  refine ⟨table, hwf, hhere, ⟨place, mode, hfind⟩, ?_⟩
  intro r' hr'
  obtain rfl := List.mem_singleton.mp hr'
  rw [hr]
  exact huses.serves u.collection

/-- **What was built can be loaded** by all who use it: if it was there already, or if the way
to it is steady and the time of the build can be read back. -/
theorem reuse_of_built (hplace : tree.isThere u.location = true ∨
      tree.WellFormed ∧ tree.HasDirectory tree.here ∧ Steady tree u.location ∧
        (Moment.parse stamp.created).isOk = true)
    {other : CodebaseIndex σ} (hother : other.Uses u) :
    other.noting.reuse after u.location u.collection =
      .ok ⟨u.collection, u.location, r.store, other.noting.embedder⟩ := by
  have hlocate := huses.noting.locate_eq rfl tree
  have hresult : (ix.noting.build stamp tree project u.collection state).result = .ok r := by
    rw [hbuild]
  have hmodel : ix.noting.embedder.model = other.noting.embedder.model :=
    huses.model.trans hother.model.symm
  cases hthere : tree.isThere u.location with
  | true =>
      rw [CodebaseIndex.build_of_there hroot hlocate hthere] at hbuild
      obtain ⟨hreuse, rfl, -, -⟩ := Outcome.mk.inj hbuild
      obtain ⟨store, d, moment, hopen, hdescription, hsame, rfl⟩ :=
        CodebaseIndex.reuse_eq_ok hreuse
      rw [CodebaseIndex.reuse_eq hopen hdescription, if_pos (hsame.trans hmodel)]
  | false =>
      obtain ⟨hwf, hhere, hsteady, hparse⟩ := hplace.resolve_left (by simp [hthere])
      obtain ⟨moment, hmoment⟩ := Attempt.isOk_iff.mp hparse
      obtain ⟨table, place, mode, hfind, ⟨dims, hdescribed⟩, rfl⟩ :=
        CodebaseIndex.described_build hwf hhere hroot hlocate hsteady hthere hresult
      rw [hbuild] at hfind
      have hdescription := description_eq_ok_iff.mpr ⟨table, Store.table_eq hfind, hdescribed, hmoment⟩
      exact (CodebaseIndex.reuse_eq (Store.open?_eq hfind) hdescription).trans (if_pos hmodel)

end First

/-- **Using a collection again is nothing but loading it.** Whatever its users do after the first
build that succeeded, and whatever happens to the project: the database is the same; a build
or connection changes nothing, asks for no vectors, does not go through the project's files,
and loads what was there right after the first build; and a search finds what it found then,
asking for the vector of the query, or for nothing if it is for no hits or nothing is stored. -/
theorem Usage.reuse_pure (u : Usage) (ix : CodebaseIndex σ) (stamp : Stamp) (tree after : Tree)
    (project : String) (state final : σ × List (List String)) (walks : Nat)
    (r : Retriever (σ × List (List String))) (huses : ix.Uses u)
    (hroot : projectRoot tree project = .ok u.root)
    (hbuild : ix.noting.build stamp tree project u.collection state =
      ⟨.ok r, after, final, walks⟩)
    (hwf : after.WellFormed) (hhere : after.HasDirectory after.here) :
    ∃ table, ∀ s, Relation.ReflTransGen u.Step ⟨after, final, [r]⟩ s →
      Store.databaseAt s.tree u.location = some table ∧
      (∀ (other : CodebaseIndex σ) (stamp' : Stamp) (project' : String), other.Uses u →
        u.Named s.tree project' →
        other.noting.locateWalks = 0 ∧
        (∃ result, other.noting.build stamp' s.tree project' u.collection s.state =
            ⟨result, s.tree, s.state, 0⟩ ∧
          ∀ found, projectRoot s.tree project' = .ok found →
            result = other.noting.reuse after u.location u.collection ∧
            (tree.isThere u.location = true ∨
              tree.WellFormed ∧ tree.HasDirectory tree.here ∧ Steady tree u.location ∧
                (Moment.parse stamp.created).isOk = true →
              result = .ok ⟨u.collection, u.location, r.store, other.noting.embedder⟩)) ∧
        ∀ found, projectRoot s.tree project' = .ok found →
          other.noting.connect s.tree project' u.collection =
            .ok ⟨u.collection, u.location, r.store, other.noting.embedder⟩) ∧
      ∀ r' ∈ s.retrievers, ∀ query k,
        (r'.search s.tree query k s.state).1 = (r.search after query k final).1 ∧
        ((r'.search s.tree query k s.state).2 = s.state ∨ k ≠ 0 ∧ table.rows ≠ [] ∧
          (r'.search s.tree query k s.state).2.2 = s.state.2 ++ [[query]]) := by
  obtain ⟨table, hfirst⟩ := holds_of_build huses hroot hbuild hwf hhere
  obtain ⟨first, firstMode, hfindFirst⟩ := hfirst.found
  have hserves : u.Serves table r := hfirst.held r (.head _)
  refine ⟨table, fun s hrun => ?_⟩
  have hs : u.Holds table s := hfirst.run hrun
  obtain ⟨place, mode, hfind⟩ := hs.found
  refine ⟨?_, ?_, ?_⟩
  · have hread : s.tree.read (Store.file u.location) = .ok (.database table) := by
      rw [Tree.read, stat_eq_ok_iff.mpr ⟨place, hfind⟩]
      rfl
    rw [databaseAt, hread]
  · intro other stamp' project' hother hnamed
    refine ⟨by simp [CodebaseIndex.locateWalks, hother.noting.unkeyed], ?_, ?_⟩
    · refine ⟨_, hs.build_eq hother hnamed stamp', fun found hfound => ?_⟩
      have hreuse : other.noting.reuse s.tree u.location u.collection =
          other.noting.reuse after u.location u.collection :=
        reuse_congr hfind hfindFirst other.noting u.collection
      rw [hfound, Attempt.ok_bind, hreuse]
      exact ⟨rfl, fun hplace => reuse_of_built huses hroot hbuild hplace hother⟩
    · intro found hfound
      rw [hs.connect_eq hother hnamed, hfound, Attempt.ok_bind, hserves.store]
  · intro r' hr' query k
    obtain ⟨hresult, hasked⟩ := search_eq (hs.held r' hr') hfind query k s.state
    obtain ⟨hbefore, -⟩ := search_eq hserves hfindFirst query k final
    exact ⟨hresult.trans hbefore.symm, hasked⟩

/-! ### A sample -/

open CodebaseIndex

theorem Outcome.eq_of_result {α : Type} {o : Outcome τ α} {result : Except IndexFault α}
    (h : o.result = result) : o = ⟨result, o.tree, o.state, o.walks⟩ := by
  subst h
  rfl

/-- How the sample collection is used. -/
def sampleUsage : Usage where
  runtimeDir := "/r"
  root := ["c"]
  plain := by decide
  collection := "a_b"
  model := "sample"
  answer texts := .ok (texts.map sampleVector)

theorem uses_sampleUsage : sampleIndex.Uses sampleUsage :=
  ⟨rfl, rfl, rfl, fun _ _ => rfl⟩

/-- The first build of the sample collection. -/
def firstBuild : Outcome (Unit × List (List String)) (Retriever (Unit × List (List String))) :=
  sampleIndex.noting.build sampleStamp namesakeTree "/c" "a_b" ((), [])

/-- The tree when the source of the project has been changed after that. -/
def changedTree : Tree :=
  firstBuild.tree.put ["c", "one.py"] (.file 0o644 (.text "z\n"))

theorem firstBuild_eq :
    firstBuild =
      ⟨(sampleIndex.noting.buildNew sampleStamp "/r/a_b_c" ["c"] "a_b" namesake.files namesakeTree
          ((), [])).1,
        (sampleIndex.noting.buildNew sampleStamp "/r/a_b_c" ["c"] "a_b" namesake.files namesakeTree
          ((), [])).2.1,
        (sampleIndex.noting.buildNew sampleStamp "/r/a_b_c" ["c"] "a_b" namesake.files namesakeTree
          ((), [])).2.2, 1⟩ := by
  have hlocate : sampleIndex.noting.locate namesakeTree ["c"] "a_b" = .ok ("/r/a_b_c", none) := by
    decide +kernel
  exact build_eq_of_new namesake.found hlocate namesake.listed (by decide +kernel)

/-- The change of the source leaves the collection alone. -/
theorem leavesAlone_changedTree :
    LeavesAlone (Store.file sampleUsage.location) firstBuild.tree changedTree := by
  have hsame (path : Path) (hapart : ¬ ["c"] <+: path) :
      changedTree.get? path = firstBuild.tree.get? path := by
    refine get?_put_of_ne _ ?_ _
    rintro rfl
    exact hapart ⟨["one.py"], rfl⟩
  have hfind : (firstBuild.tree.prune ["c"]).find true (Store.file sampleUsage.location) =
      firstBuild.tree.find true (Store.file sampleUsage.location) := by
    rw [firstBuild_eq]
    decide +kernel
  exact leavesAlone_of_apart rfl hsame fun path entry h => hfind.trans h

/-- **After a change of the project** a build loads the collection as it was. -/
theorem reuse_pure_changedTree :
    ∃ r r', firstBuild.result = .ok r ∧
      sampleIndex.noting.build ⟨2, "later"⟩ changedTree "/c" "a_b" firstBuild.state =
        ⟨.ok r', changedTree, firstBuild.state, 0⟩ ∧ r'.store = r.store ∧
      ∀ query k, (r.search changedTree query k firstBuild.state).1 =
        (r.search firstBuild.tree query k firstBuild.state).1 := by
  obtain ⟨r, hr⟩ : ∃ r, firstBuild.result = .ok r := by
    refine Attempt.isOk_iff.mp ?_
    rw [firstBuild_eq]
    decide +kernel
  have hbuild : sampleIndex.noting.build sampleStamp namesakeTree "/c" sampleUsage.collection
      ((), []) = ⟨.ok r, firstBuild.tree, firstBuild.state, firstBuild.walks⟩ :=
    firstBuild.eq_of_result hr
  have hwf : firstBuild.tree.WellFormed ∧ changedTree.WellFormed := by
    rw [changedTree, firstBuild_eq]
    decide +kernel
  have hhere : firstBuild.tree.HasDirectory firstBuild.tree.here ∧
      changedTree.HasDirectory changedTree.here := by
    rw [changedTree, firstBuild_eq]
    decide +kernel
  have hroot : projectRoot changedTree "/c" = .ok ["c"] := by
    rw [changedTree, firstBuild_eq]
    decide +kernel
  obtain ⟨table, hrun⟩ := sampleUsage.reuse_pure sampleIndex sampleStamp namesakeTree
    firstBuild.tree "/c" ((), []) firstBuild.state firstBuild.walks r uses_sampleUsage
    namesake.found hbuild hwf.1 hhere.1
  obtain ⟨-, hused, hsearch⟩ := hrun ⟨changedTree, firstBuild.state, [r]⟩
    (.single (.change changedTree hwf.2 hhere.2 leavesAlone_changedTree))
  obtain ⟨-, ⟨result, hagain, hresult⟩, -⟩ := hused sampleIndex ⟨2, "later"⟩ "/c"
    uses_sampleUsage fun root h => by rw [Except.ok.inj (h.symm.trans hroot)]; rfl
  obtain ⟨-, hloaded⟩ := hresult ["c"] hroot
  obtain rfl := hloaded
    (.inr ⟨by decide, by decide, .inl (by decide +kernel), by decide +kernel⟩)
  exact ⟨r, _, hr, hagain, rfl, fun query k => (hsearch r (.head _) query k).1⟩

end Index

end Workbench
