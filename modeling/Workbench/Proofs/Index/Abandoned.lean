/-
# Builds that are given up

A build is given up when a source cannot be read, has no grammar, is not parsed, or is not
embedded. Then what was built is taken away, so any number of such attempts leaves one and the
same tree (`CodebaseIndex.begun_of_attempts`), in which nothing of the collection is found and
from which it is built as if they had not been made.

* `CodebaseIndex.GivenUp` — an attempt that was given up.
* `CodebaseIndex.attempts_traceless` — **attempts that were given up leave no trace.**
* `CodebaseIndex.attempts_traced` — what they change where the project, or its sources, lie
  where the collection is built, and where a `..` leads out of a directory that is not there.
-/

import Mathlib.Logic.Relation
import Workbench.Proofs.Index.Keeping

namespace Workbench.Index

open Workbench.Files Workbench.Files.Tree Workbench.Collection

/-- A fault of what is indexed, or of the embedder, and not of the file system or the store. -/
def IndexFault.isInterruption : IndexFault → Bool
  | .build (.unreadable _ _) => true
  | .build (.noGrammar _) => true
  | .parse _ => true
  | .embedding _ => true
  | _ => false

namespace CodebaseIndex

/-- An attempt to build a collection that was given up, by whichever index of the directory
of all collections. -/
def GivenUp (runtimeDir project collection : String) (before after : Tree) : Prop :=
  ∃ (σ : Type) (ix : CodebaseIndex σ) (stamp : Stamp) (state : σ) (fault : IndexFault),
    ix.runtimeDir = runtimeDir ∧ ix.settings.contentHashKey = false ∧
      (ix.build stamp before project collection state).result = .error fault ∧
      fault.isInterruption = true ∧ (ix.build stamp before project collection state).tree = after

variable {σ : Type} {ix : CodebaseIndex σ} {tree cleared ready mid after : Tree} {root base : Path}
  {runtimeDir project collection location : String} {dir : List String} {name : String}
  {files : List Source} {s : Source}

/-! ### One attempt, and all -/

section Attempts

variable (hplaced : Placed (Index.location runtimeDir root collection none) dir name)

include hplaced

/-- **An attempt that is given up** has begun, and ends where it began. -/
theorem begun_of_givenUp (h : GivenUp runtimeDir project collection tree after)
    (hwf : tree.WellFormed) (hroot : projectRoot tree project = .ok root)
    (hopen : tree.HasDirectory (tree.start (Index.location runtimeDir root collection none)))
    (hsteady : Steady tree (Index.location runtimeDir root collection none))
    (hnew : tree.isThere (Index.location runtimeDir root collection none) = false) :
    ∃ cleared ready base, Begun tree cleared ready after
      (Index.location runtimeDir root collection none) dir name base := by
  obtain ⟨σ, ix, stamp, state, fault, rfl, hkey, hresult, hfault, htree⟩ := h
  have hended := ended_build_of_placed stamp state hwf hroot
    (locate_eq_of_unkeyed hkey tree root collection) hsteady hnew hopen hplaced
  rw [hresult, htree] at hended
  cases hended with
  | blocked _ => simp [IndexFault.isInterruption] at hfault
  | stopped _ _ => simp [IndexFault.isInterruption] at hfault
  | abandoned hbegun => exact ⟨_, _, _, hbegun⟩

/-- **Any number of attempts** ends where the first one began. -/
theorem begun_of_attempts (h : Relation.TransGen (GivenUp runtimeDir project collection) tree after)
    (hwf : tree.WellFormed) (hhere : tree.HasDirectory tree.here)
    (hremove : removeIfThere tree (staging (Index.location runtimeDir root collection none)) =
      .ok cleared)
    (hroot : projectRoot cleared project = .ok root)
    (hsteady : Steady tree (Index.location runtimeDir root collection none))
    (hnew : tree.isThere (Index.location runtimeDir root collection none) = false) :
    ∃ ready base, Begun tree cleared ready after
      (Index.location runtimeDir root collection none) dir name base := by
  induction h with
  | single hfirst =>
      have hbefore := projectRoot_of_within (cleared_of_removeIfThere hremove).within hroot
      obtain ⟨cleared', ready, base, hbegun⟩ := begun_of_givenUp hplaced hfirst hwf hbefore
        (hasDirectory_start hhere _) hsteady hnew
      obtain rfl : cleared' = cleared := by simpa [hremove] using hbegun.removed.symm
      exact ⟨ready, base, hbegun⟩
  | @tail mid after _ hnext ih =>
      obtain ⟨ready, base, hbegun⟩ := ih
      have hopen := hbegun.reaches.opened _ (List.prefix_refl _)
      rw [← hbegun.start_eq] at hopen
      -- Each attempt clears away nothing, and makes the same directory as the first one.
      obtain ⟨cleared', ready', base', hagain⟩ := begun_of_givenUp hplaced hnext hbegun.wellFormed
        (projectRoot_of_within hbegun.grown.within hroot) hopen (hbegun.steady hplaced hsteady)
        (hbegun.not_there hplaced hnew)
      obtain rfl : cleared' = mid := by
        simpa [hbegun.removed_mid hplaced] using hagain.removed.symm
      obtain rfl : ready' = ready := by
        simpa [hbegun.again] using hagain.made.symm
      obtain rfl : cleared' = after := by
        simpa [hbegun.removed_ready hplaced] using hagain.removed_ready hplaced
      exact ⟨ready', base, hbegun⟩

end Attempts

/-! ### The next build -/

/-- A build that succeeds reads every source after it has cleared away what was in its way. -/
theorem there_of_buildNew {stamp : Stamp} {state final : σ} {r : Retriever σ}
    (h : ix.buildNew stamp location root collection files tree state = (.ok r, after, final))
    (hremove : removeIfThere tree (staging location) = .ok cleared) (hwf : tree.WellFormed)
    (hfile : ∀ s ∈ files, ∃ mode content, tree.get? s.place = some (.file mode content))
    (hs : s ∈ files) : ∃ entry, cleared.get? s.place = some entry := by
  obtain ⟨cleared', ready, filled, hremove', hmake, hbuild, -⟩ := buildNew_eq_ok h
  obtain rfl : cleared = cleared' := by simpa [hremove] using hremove'
  obtain ⟨_, hall⟩ := buildInto_done
    (fun sofar _ => ∀ s ∈ sofar, ∃ entry, cleared.get? s.place = some entry) hmake hbuild
    (fun _ _ _ _ => by simp)
    fun store place mode held _ batch hin sofar p next hfilling hsofar hrun => by
      obtain ⟨chunks, _, hchunks, -, -⟩ := storeBatch_eq_ok hrun
      obtain ⟨table, htree, -⟩ := hfilling
      have hremains : cleared.Remains p.tree := htree ▸ (Remains.makeDirectoriesTo hmake).trans
        (Remains.put ready place (.inr ⟨mode, table, rfl⟩))
      intro s hs
      rcases List.mem_append.mp hs with hs | hs
      · exact hsofar s hs
      · obtain ⟨text, hread⟩ := exists_read_of_chunkBatch hchunks hs
        obtain ⟨_, _, hbefore⟩ := hfile s (hin s hs)
        simp only [Source.read, Attempt.mapError_eq_ok_iff] at hread
        obtain ⟨_, hfind⟩ := ((Remains.of_cleared (cleared_of_removeIfThere hremove)).trans
          hremains).find_of_readText hwf hbefore hread
        rcases hremains _ _ (leads_of_find (hwf.plain hbefore) hfind).entry_eq with
          hthere | hdir | ⟨_, _, hdatabase⟩
        · exact ⟨_, hthere⟩
        · simp [Entry.isDirectory] at hdir
        · simp at hdatabase
  exact hall s hs

/-- **The next build** does what it would have done if the attempts had not been made. -/
theorem build_of_begun {stamp : Stamp} {state : σ}
    (h : Begun tree cleared ready after location dir name base)
    (hplaced : Placed location dir name) (hwf : tree.WellFormed)
    (hhere : tree.HasDirectory tree.here) (hroot : projectRoot cleared project = .ok root)
    (hlocate : ∀ tree, ix.locate tree root collection = .ok (location, none))
    (hnew : tree.isThere location = false)
    (hsources : (∀ s ∈ sources ix.languages tree root, ∃ entry, cleared.get? s.place = some entry) ∨
      (ix.build stamp tree project collection state).result.isOk = true) :
    ix.build stamp after project collection state = ix.build stamp tree project collection state := by
  have hcleared := cleared_of_removeIfThere h.removed
  have hbefore := projectRoot_of_within hcleared.within hroot
  have hafter := projectRoot_of_within h.grown.within hroot
  have hbuild : ix.build stamp tree project collection state = _ :=
    build_eq_of_new hbefore (hlocate tree) (locate_eq_ok (hlocate tree)).1 hnew
  obtain ⟨_, hfind, -⟩ := find_projectRoot hwf hhere hbefore
  obtain ⟨_, hfindCleared, -⟩ :=
    find_projectRoot_of_within hcleared.within hwf hhere (hcleared.wellFormed hwf) hroot
  have hthere : ∀ s ∈ sources ix.languages tree root, ∃ entry, cleared.get? s.place = some entry := by
    rcases hsources with hthere | hok
    · exact hthere
    · rw [hbuild] at hok
      obtain ⟨r, hr⟩ := Attempt.isOk_iff.mp hok
      refine fun s hs => there_of_buildNew (Prod.ext hr (Prod.ext rfl rfl)) h.removed hwf ?_ hs
      intro s hs
      obtain ⟨_, mode, content, hfile, -, -, hsource⟩ := (mem_sources_iff hwf hfind).mp hs
      obtain ⟨-, _, _, -, -, -, rfl⟩ := sourceOf?_eq_some_iff.mp hsource
      exact ⟨mode, content, hfile⟩
  have hsame : sources ix.languages after root = sources ix.languages tree root :=
    (sources_of_grown h.grown hfindCleared (h.grown.within.find hfindCleared)).trans
      (sources_of_cleared hcleared hwf hfind hfindCleared hthere)
  rw [hbuild, build_eq_of_new hafter (hlocate after) hsame (h.not_there hplaced hnew)]
  simp only [buildNew_restart ix h hplaced]

/-- **Attempts that were given up leave no trace.** Where what lay where the collection is built
was not on the way to the project, nothing is found at the location or where it is built, and
what lies under any other name in the directory of all collections is as it was. From there any
index does exactly what it would have done if the attempts had not been made, unless what was
cleared away were sources for which it would have failed. -/
theorem attempts_traceless (runtimeDir project collection : String) (tree cleared after : Tree)
    (root : Path) (hcollection : '/' ∉ collection.toList) (hwf : tree.WellFormed)
    (hhere : tree.HasDirectory tree.here)
    (hremove : removeIfThere tree (staging (Index.location runtimeDir root collection none)) =
      .ok cleared)
    (hroot : projectRoot cleared project = .ok root)
    (hsteady : Steady tree (Index.location runtimeDir root collection none))
    (hnew : tree.isThere (Index.location runtimeDir root collection none) = false)
    (hattempts : Relation.TransGen (GivenUp runtimeDir project collection) tree after) :
    (after.isThere (Index.location runtimeDir root collection none) = false ∧
      ∀ path entry, after.find false (staging (Index.location runtimeDir root collection none)) ≠
        .ok ⟨path, some entry⟩) ∧
    (∀ other place, Path.IsName other → other ≠ keyName root collection ++ stagingMark →
      tree.find false (Path.below runtimeDir other) = .ok place →
        SameBelow place.path tree after) ∧
    ∀ (σ : Type) (ix : CodebaseIndex σ) (stamp : Stamp) (state : σ), ix.runtimeDir = runtimeDir →
      ix.settings.contentHashKey = false →
      ((∀ s ∈ sources ix.languages tree root, ∃ entry, cleared.get? s.place = some entry) ∨
        (ix.build stamp tree project collection state).result.isOk = true) →
      ix.build stamp after project collection state =
        ix.build stamp tree project collection state := by
  have hbefore := projectRoot_of_within (cleared_of_removeIfThere hremove).within hroot
  obtain ⟨_, -, hdir⟩ := find_projectRoot hwf hhere hbefore
  have hkey : Path.IsName (keyName root collection) :=
    isName_of_mark (by simp [keyName]) (by simp [keyName, hcollection, not_mem_nameOf (hwf.plain hdir)])
  obtain ⟨dir, name, hplaced⟩ := exists_placed (hwf.plain hdir) (d := none) (by simp) runtimeDir
    collection
  obtain ⟨ready, base, hbegun⟩ :=
    begun_of_attempts hplaced hattempts hwf hhere hremove hroot hsteady hnew
  refine ⟨⟨hbegun.not_there hplaced hnew, hbegun.not_find_staging hplaced⟩, ?_, ?_⟩
  · intro other place hother hne hfind rest
    obtain ⟨rfl, rfl⟩ := hplaced.eq_of_below hkey
    obtain ⟨_, hleads, hopen, hplace⟩ := exists_of_find_beside hwf hhere hkey hother hfind
    rw [hplace, List.append_assoc, List.singleton_append]
    exact hbegun.get?_apart hwf (hasDirectory_start hhere _) hplaced hsteady hleads hopen hne rest
  · rintro σ ix stamp state rfl hunkeyed hsources
    exact build_of_begun hbegun hplaced hwf hhere hroot
      (fun tree => locate_eq_of_unkeyed hunkeyed tree root collection) hnew hsources

/-! ### Samples -/

/-- An attempt to build a collection of a sample. -/
theorem Sample.givenUp (s : Sample tree project) (ix : CodebaseIndex Unit) (stamp : Stamp)
    (collection location : String) (fault : IndexFault)
    (hlanguages : ix.languages = sampleIndex.languages) (hkey : ix.settings.contentHashKey = false)
    (hlocation : Index.location ix.runtimeDir s.root collection none = location)
    (hnew : tree.isThere location = false)
    (hresult : (ix.buildNew stamp location s.root collection s.files tree ()).1.map (fun _ => ()) =
      .error fault)
    (hfault : fault.isInterruption = true)
    (hafter : (ix.buildNew stamp location s.root collection s.files tree ()).2.1 = after) :
    GivenUp ix.runtimeDir project collection tree after := by
  have hbuild := s.build_eq ix stamp collection location hlanguages hkey hlocation hnew
  refine ⟨Unit, ix, stamp, (), fault, rfl, hkey, ?_, hfault, ?_⟩
  · rw [hbuild]
    exact Attempt.map_eq_error_iff.mp hresult
  · rw [hbuild]
    exact hafter

/-- The sample with an embedder that answers with no vectors. -/
def silentIndex : CodebaseIndex Unit :=
  { sampleIndex with embedder := ⟨"sample", 0, fun _ _ => (.ok [], ())⟩ }

/-- The tree with what is left of a build when that is cleared away. -/
def clearedTree : Tree :=
  ⟨[(["p"], .directory 0o755), (["p", "a.py"], .file 0o644 (.text "x\n")),
    (["r"], .directory 0o755)], []⟩

/-- The project before an attempt. -/
def stale : Sample staleTree "/p" where
  root := ["p"]
  files := [⟨["p", "a.py"], "a.py", "py"⟩]
  found := by decide +kernel
  listed := sources_staleTree

/-- The project after an attempt. -/
def restored : Sample clearedTree "/p" where
  root := ["p"]
  files := [⟨["p", "a.py"], "a.py", "py"⟩]
  found := by decide +kernel
  listed := sources_eq_singleton (by decide +kernel)

theorem attempts_traceless_staleTree :
    clearedTree.isThere "/r/x_p" = false ∧
      sampleIndex.build ⟨1, "now"⟩ clearedTree "/p" "x" () =
        sampleIndex.build ⟨1, "now"⟩ staleTree "/p" "x" () := by
  have hfirst : GivenUp "/r" "/p" "x" staleTree clearedTree :=
    stale.givenUp silentIndex ⟨1, "now"⟩ "x" "/r/x_p" (.embedding (.count 1 0)) rfl rfl
      (by decide +kernel) (by decide +kernel) (by decide +kernel) rfl (by decide +kernel)
  have hagain : GivenUp "/r" "/p" "x" clearedTree clearedTree :=
    restored.givenUp silentIndex ⟨2, "later"⟩ "x" "/r/x_p" (.embedding (.count 1 0)) rfl rfl
      (by decide +kernel) (by decide +kernel) (by decide +kernel) rfl (by decide +kernel)
  obtain ⟨⟨hnew, -⟩, -, hnext⟩ := attempts_traceless "/r" "/p" "x" staleTree clearedTree clearedTree
    ["p"] (by decide) (by decide) (by decide) (by decide +kernel) restored.found
    (.inl (by decide +kernel)) (by decide +kernel) (.tail (.single hfirst) hagain)
  rw [show Index.location "/r" ["p"] "x" none = "/r/x_p" by decide +kernel] at hnew
  refine ⟨hnew, hnext Unit sampleIndex ⟨1, "now"⟩ () rfl rfl (.inl ?_)⟩
  rw [sources_staleTree]
  exact fun s hs => ⟨.file 0o644 (.text "x\n"), by rw [List.mem_singleton.mp hs]; decide⟩

/-- A project that is also called by a way through what is left of a build. -/
def detourTree : Tree :=
  ⟨[(["p"], .directory 0o755), (["p", "a.py"], .file 0o644 (.text "x\n")),
    (["r"], .directory 0o755), (["r", "x_p.partial"], .directory 0o755)], []⟩

/-- The project by that way. -/
def detour : Sample detourTree "/r/x_p.partial/../../p" where
  root := ["p"]
  files := [⟨["p", "a.py"], "a.py", "py"⟩]
  found := by decide +kernel
  listed := sources_eq_singleton (by decide +kernel)

/-- A project of which the only source lies where its collection is built. -/
def overlaidTree : Tree :=
  ⟨[(["r"], .directory 0o755), (["r", "x_r.partial"], .directory 0o755),
    (["r", "x_r.partial", "a.py"], .file 0o644 (.text "x\n"))], []⟩

/-- That project. -/
def overlaid : Sample overlaidTree "/r" where
  root := ["r"]
  files := [⟨["r", "x_r.partial", "a.py"], "x_r.partial/a.py", "py"⟩]
  found := by decide +kernel
  listed := sources_eq_singleton (by decide +kernel)

/-- The project without that source. -/
def emptiedTree : Tree :=
  ⟨[(["r"], .directory 0o755)], []⟩

/-- What is left of that project. -/
def emptied : Sample emptiedTree "/r" where
  root := ["r"]
  files := []
  found := by decide +kernel
  listed := by cbv

/-- The project beside which there is a collection already, under a name that leads nowhere if
a directory is not there. -/
def unmadeTree : Tree :=
  ⟨[(["p"], .directory 0o755), (["p", "a.py"], .file 0o644 (.text "x\n")),
    (["r"], .directory 0o755), (["r", "x_p"], .directory 0o755)], []⟩

/-- The project there. -/
def unmade : Sample unmadeTree "/p" where
  root := ["p"]
  files := [⟨["p", "a.py"], "a.py", "py"⟩]
  found := by decide +kernel
  listed := sources_eq_singleton (by decide +kernel)

/-- **What an attempt changes** where what it clears away is on the way to the project, or is a
source without which the next build succeeds, and where the location leads out of a directory
that the attempt makes. -/
theorem attempts_traced :
    (GivenUp "/r" "/r/x_p.partial/../../p" "x" detourTree clearedTree ∧
      (sampleIndex.build ⟨1, "now"⟩ detourTree "/r/x_p.partial/../../p" "x" ()).result.isOk = true ∧
      (sampleIndex.build ⟨1, "now"⟩ clearedTree "/r/x_p.partial/../../p" "x" ()).result.isOk = false) ∧
    (GivenUp "/r" "/r" "x" overlaidTree emptiedTree ∧
      (sampleIndex.build ⟨1, "now"⟩ overlaidTree "/r" "x" ()).result.isOk = false ∧
      (sampleIndex.build ⟨1, "now"⟩ emptiedTree "/r" "x" ()).result.isOk = true) ∧
    (unmadeTree.isThere "/new/../r/x_p" = false ∧
      ∃ after, GivenUp "/new/../r" "/p" "x" unmadeTree after ∧
        after.isThere "/new/../r/x_p" = true) := by
  refine ⟨⟨?_, ?_, by decide +kernel⟩, ⟨?_, ?_, ?_⟩, by decide +kernel, ?_⟩
  · exact detour.givenUp silentIndex ⟨1, "now"⟩ "x" "/r/x_p" (.embedding (.count 1 0)) rfl rfl
      (by decide +kernel) (by decide +kernel) (by decide +kernel) rfl (by decide +kernel)
  · rw [detour.build_eq sampleIndex ⟨1, "now"⟩ "x" "/r/x_p" rfl rfl (by decide +kernel)
      (by decide +kernel)]
    decide +kernel
  · exact overlaid.givenUp sampleIndex ⟨1, "now"⟩ "x" "/r/x_r"
      (.build (.unreadable "x_r.partial/a.py" .missing)) rfl rfl
      (by decide +kernel) (by decide +kernel) (by decide +kernel) rfl (by decide +kernel)
  · rw [overlaid.build_eq sampleIndex ⟨1, "now"⟩ "x" "/r/x_r" rfl rfl (by decide +kernel)
      (by decide +kernel)]
    decide +kernel
  · rw [emptied.build_eq sampleIndex ⟨1, "now"⟩ "x" "/r/x_r" rfl rfl (by decide +kernel)
      (by decide +kernel)]
    decide +kernel
  · exact ⟨_, unmade.givenUp { silentIndex with runtimeDir := "/new/../r" } ⟨1, "now"⟩ "x"
      "/new/../r/x_p" (.embedding (.count 1 0)) rfl rfl (by decide +kernel) (by decide +kernel)
      (by decide +kernel) rfl rfl, by decide +kernel⟩

end CodebaseIndex

end Workbench.Index
