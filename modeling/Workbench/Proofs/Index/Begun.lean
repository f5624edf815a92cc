/-
# Where a build begins

A build clears away what lies where a collection is built, and makes a directory there.
Where the way to the location stays the same (`Steady`) that directory is a new one
(`Begun`), and when it is taken away again the tree is the one in which it was made. If it
could not be made, nothing is found where it should be.

* `exists_begun` — **the directory to build in is new.**
* `Begun.removed_written` — what is built there can be taken away without a trace.
* `not_find_of_stopped` — nothing is left of a directory that could not be made.
-/

import Workbench.Proofs.Files.Emptying
import Workbench.Proofs.Index.Placing
import Workbench.Proofs.Index.Storing

namespace Workbench.Index

open Workbench.Files Workbench.Files.Tree Workbench.Collection

/-- The way to a location is the same before and after directories are made on it: it holds
no `..`, or there is the directory of the location when what is left of an earlier build is
cleared away. -/
def Steady (tree : Tree) (location : String) : Prop :=
  ".." ∉ Path.steps location ∨ ∃ cleared, removeIfThere tree (staging location) = .ok cleared ∧
    cleared.isDirectory (tree.directoryOf location) = true

variable {tree cleared ready mid : Tree} {location text : String} {dir : List String}
  {name : String} {base : Path}

/-! ### Clearing away -/

theorem removeIfThere_of_ok {after : Tree} (h : tree.removeDirectory text = .ok after) :
    removeIfThere tree text = .ok after := by
  rw [removeIfThere, h]

theorem removeIfThere_of_missing (h : tree.removeDirectory text = .error .missing) :
    removeIfThere tree text = .ok tree := by
  rw [removeIfThere, h]

theorem cleared_of_removeIfThere {after : Tree} (h : removeIfThere tree text = .ok after) :
    tree.Cleared text after := by
  unfold removeIfThere at h
  split at h
  · next hremove =>
      obtain rfl := Except.ok.inj h
      exact .inl hremove
  · next hremove =>
      obtain rfl := Except.ok.inj h
      exact .inr ⟨hremove, rfl⟩
  · simp at h

theorem removeIfThere_eq_error {fault : IndexFault} (h : removeIfThere tree text = .error fault) :
    ∃ stop, fault = .access text stop := by
  unfold removeIfThere at h
  split at h
  · cases h
  · cases h
  · next stop _ _ => exact ⟨stop, (Except.error.inj h).symm⟩

/-- Where nothing is found, nothing is taken away. -/
theorem removeIfThere_of_not_find
    (h : ∀ path entry, tree.find false text ≠ .ok ⟨path, some entry⟩) :
    (removeIfThere tree text).toOption.getD tree = tree := by
  cases hremove : removeIfThere tree text with
  | error fault => rfl
  | ok after =>
      rcases (cleared_of_removeIfThere hremove).cases with
        ⟨path, _, hfind, -⟩ | ⟨path, _, hfind, -⟩ | ⟨-, rfl⟩
      · exact absurd hfind (h path _)
      · exact absurd hfind (h path _)
      · rfl

theorem given_of_cleared {after : Tree} (hne : text ≠ "") (h : tree.Cleared text after) :
    Path.Given text := by
  have hfind : (∃ place, tree.find false text = .ok place) ∨
      tree.find false text = .error .missing := by
    rcases h.cases with ⟨path, mode, hfind, -⟩ | ⟨path, target, hfind, -⟩ | ⟨hfind, -⟩
    · exact .inl ⟨_, hfind⟩
    · exact .inl ⟨_, hfind⟩
    · exact hfind.imp_left fun ⟨path, hpath⟩ => ⟨_, hpath⟩
  exact given_of_find hne hfind

/-! ### The directory to build in -/

/-- Below one directory, a place lies under one name. -/
theorem eq_of_concat {rest : Path} {other : String} (h : base ++ [name] <+: base ++ other :: rest) :
    name = other := by
  simpa using h

/-- The directory to build in is a new one, in the directory to which the names above the
location lead. -/
structure Begun (tree cleared ready mid : Tree) (location : String) (dir : List String)
    (name : String) (base : Path) : Prop where
  removed : removeIfThere tree (staging location) = .ok cleared
  made : cleared.makeDirectoriesTo (staging location) = (none, ready)
  grown : Grown (fun _ => True) cleared mid
  fresh : mid = cleared ∨ ∀ other, mid.get? (base ++ [other]) = none
  again : mid.makeDirectoriesTo (staging location) = (none, ready)
  wellFormed : mid.WellFormed
  here : mid.here = tree.here
  reaches : mid.Reaches (tree.start location) dir base
  entering : Entering (name ++ stagingMark)
  free : mid.get? (base ++ [name ++ stagingMark]) = none
  ready : ready = mid.put (base ++ [name ++ stagingMark]) (.directory directoryMode)

section Beginning

variable (hwf : tree.WellFormed) (hopen : tree.HasDirectory (tree.start location))
  (hplaced : Placed location dir name) (hsteady : Steady tree location)
  (hremove : removeIfThere tree (staging location) = .ok cleared)

include hwf hopen hplaced hsteady hremove

/-- Where a location holds `..`, the way to it is there when the build begins. -/
theorem plain_or_reaches :
    Path.Plain (tree.start (staging location) ++ dir.filter (· != ".") ++ [name ++ stagingMark]) ∨
      ∃ base, cleared.Reaches (tree.start (staging location)) dir base := by
  have hcleared := cleared_of_removeIfThere hremove
  have hstart : tree.start (staging location) = tree.start location :=
    hplaced.start_eq tree (.inl rfl)
  rcases hsteady with hup | ⟨other, hother, hdir⟩
  · exact .inl (hstart ▸ hplaced.plain hwf hopen hup)
  · right
    obtain rfl : cleared = other := by simpa [hremove] using hother
    rw [directoryOf_eq hplaced.steps hplaced.isName.2.1] at hdir
    obtain ⟨base, mode, hfind⟩ := isDirectory_iff.mp hdir
    have hleads := (find_eq_ok_iff.mp hfind).2
    rw [start_text, Path.steps_text_of_named (hplaced.named_start hwf hopen), ← hstart] at hleads
    have hsame : Grown (fun _ => True) cleared cleared := .same
    exact ⟨base, hcleared.reaches_of_leads hwf (hstart ▸ hopen) hsame hleads⟩

/-- **The directory to build in is new** when it could be made. -/
theorem exists_begun (hmake : cleared.makeDirectoriesTo (staging location) = (none, ready)) :
    ∃ mid base, Begun tree cleared ready mid location dir name base := by
  have hcleared := cleared_of_removeIfThere hremove
  have hwfCleared := hcleared.wellFormed hwf
  have hstart : tree.start (staging location) = tree.start location :=
    hplaced.start_eq tree (.inl rfl)
  rcases plain_or_reaches hwf hopen hplaced hsteady hremove with hplain | ⟨base, hreaches⟩
  · obtain ⟨mid, base, hgrown, hfresh, hagain, hreaches, hentering, hfree, hready⟩ :=
      hcleared.exists_made hwf (hstart ▸ hopen) hplaced.steps_staging hplain hmake
    exact ⟨mid, base, hremove, hmake, hgrown, hfresh, hagain, hgrown.wellFormed hwfCleared,
      hgrown.here_eq.trans hcleared.here_eq, hstart ▸ hreaches, hentering, hfree, hready⟩
  · rcases hcleared.made_there hwf hplaced.steps_staging hplaced.named hplaced.isStagingName
      hreaches hmake with ⟨fault, hfault, -⟩ | ⟨-, hentering, hfree, hready⟩
    · simp at hfault
    · exact ⟨cleared, base, hremove, hmake, .same, .inl rfl, hmake, hwfCleared, hcleared.here_eq,
        hstart ▸ hreaches, hentering, hfree, hready⟩

/-- **A directory that could not be made** leaves nothing where it should be. -/
theorem not_find_of_stopped {fault : Fault} {partway : Tree}
    (hmake : cleared.makeDirectoriesTo (staging location) = (some fault, partway)) :
    Grown (fun _ => True) cleared partway ∧
      ∀ path entry, partway.find false (staging location) ≠ .ok ⟨path, some entry⟩ := by
  have hcleared := cleared_of_removeIfThere hremove
  have hstart : tree.HasDirectory (tree.start (staging location)) :=
    hplaced.start_eq tree (.inl rfl) ▸ hopen
  rcases plain_or_reaches hwf hopen hplaced hsteady hremove with hplain | ⟨base, hreaches⟩
  · refine ⟨?_, hcleared.not_find_of_stopped hwf hstart hplaced.steps_staging hplain hmake⟩
    rw [makeDirectoriesTo_eq hcleared.here_eq hplaced.steps_staging hplaced.isStagingName.2.1]
      at hmake
    exact makeDirectories_grown_anywhere (hcleared.wellFormed hwf) hplain hmake
  · rcases hcleared.made_there hwf hplaced.steps_staging hplaced.named hplaced.isStagingName
      hreaches hmake with ⟨_, -, rfl⟩ | ⟨hnone, -⟩
    · exact ⟨.same, hcleared.not_find hwf hstart hplaced.steps_staging hplaced.isStagingName⟩
    · simp at hnone

section Apart

variable (hleads : tree.Leads true linkLimit (tree.start location) dir ⟨base, tree.get? base⟩)
  (hbase : tree.HasDirectory base)

include hleads hbase

omit hwf hopen hsteady hremove in
/-- What is cleared away lies in the directory to which the way leads. -/
theorem path_eq_of_find {gone : Place} (hfind : tree.find false (staging location) = .ok gone) :
    gone.path = base ++ [name ++ stagingMark] := by
  have hgone := (find_eq_ok_iff.mp hfind).2
  rw [hplaced.start_eq tree (.inl rfl), hplaced.steps_staging] at hgone
  have hentering : Entering (name ++ stagingMark) := ⟨hplaced.isStagingName.2.1,
    hplaced.isStagingName.2.2.1, hgone.short _ (by simp)⟩
  exact congrArg Place.path (hgone.unique (hleads.concat false hbase hentering (by simp)))

/-- **Directories that are made on the way** lie under none of the other names in the directory
to which the way led before. -/
theorem grown_apart {outcome : Option Fault} {after : Tree}
    (hmake : cleared.makeDirectoriesTo (staging location) = (outcome, after)) :
    Grown (fun path => ∀ other, base ++ [other] <+: path → other = name ++ stagingMark)
      cleared after := by
  have hcleared := cleared_of_removeIfThere hremove
  have hwfCleared := hcleared.wellFormed hwf
  have hstart : tree.start (staging location) = tree.start location :=
    hplaced.start_eq tree (.inl rfl)
  rcases plain_or_reaches hwf hopen hplaced hsteady hremove with hplain | ⟨found, hreaches⟩
  · rw [makeDirectoriesTo_eq hcleared.here_eq hplaced.steps_staging hplaced.isStagingName.2.1,
      hstart] at hmake
    rw [hstart] at hplain
    refine (makeDirectories_grown hwfCleared hplain ?_ hmake).1
    intro up next dir' mode hup hdir hnone rest other hother
    have hbefore := hcleared.within.leads
      (leads_of_find (Path.plain_append.mp (hplain.of_isPrefix hup)).1 hdir) rfl
    by_cases hlast : up ++ [next] =
        tree.start location ++ dir.filter (· != ".") ++ [name ++ stagingMark]
    · -- Only the directory to build in was missing.
      obtain ⟨rfl, hnext⟩ := List.append_inj' hlast rfl
      have hreaches : tree.Reaches (tree.start location) dir base := .of_leads hwf hopen
        (fun step mem => hbefore.short step (List.mem_append_left _ mem)) hleads hbase
      obtain rfl : dir' = base := congrArg Place.path (hbefore.unique hreaches.leads)
      exact (eq_of_concat hother).trans (List.cons.inj hnext).1
    · -- What is missing was there before, so it was cleared away.
      have hin : up ++ [next] <+: tree.start location ++ dir.filter (· != ".") :=
        (List.prefix_concat_iff.mp hup).resolve_left hlast
      obtain ⟨entry, hentry⟩ := exists_of_way hwf hopen hleads hbase (hplain.of_isPrefix hup) hin
        (hbefore.entry_eq ▸ hbefore) (hasDirectory_iff.mpr ⟨mode, hbefore.entry_eq⟩)
      obtain ⟨gone, found, hfind, hgone⟩ := hcleared.exists_gone hentry hnone
      obtain rfl : gone = _ := path_eq_of_find hplaced hleads hbase hfind
      exact eq_of_concat (List.prefix_of_prefix_length_le hother (hgone.trans ⟨rest, by simp⟩)
        (by simp))
  · rcases hcleared.made_there hwf hplaced.steps_staging hplaced.named hplaced.isStagingName
      hreaches hmake with ⟨_, -, rfl⟩ | ⟨-, hentering, hfree, rfl⟩
    · exact .same
    · have hbefore := (hcleared.reaches hreaches).leads_name false hentering (by simp)
      rw [hstart] at hbefore
      obtain rfl : found = base := by
        simpa using congrArg Place.path
          (hbefore.unique (hleads.concat false hbase hentering (by simp)))
      obtain ⟨mode, hmode⟩ := hasDirectory_iff.mp hreaches.directory
      exact .made .same hfree (fun other hother => eq_of_concat hother)
        (Path.plain_append.mpr ⟨hwfCleared.plain hmode, Path.plain_singleton.mpr hplaced.isStagingName⟩)
        (by simpa using hreaches.directory)

omit hwf hopen hsteady in
/-- What is at and below a place stays if it is apart from what is cleared away. -/
theorem get?_cleared {path : Path} (hapart : ¬ base ++ [name ++ stagingMark] <+: path) :
    cleared.get? path = tree.get? path := by
  have hcleared := cleared_of_removeIfThere hremove
  cases hentry : tree.get? path with
  | none =>
      refine Option.eq_none_iff_forall_ne_some.mpr fun entry hsome => ?_
      simp [hcleared.get?_of_some hsome] at hentry
  | some entry =>
      refine hcleared.get?_of_apart hentry fun gone found hfind => ?_
      obtain rfl : gone = _ := path_eq_of_find hplaced hleads hbase hfind
      exact hapart

omit hwf hopen hsteady in
/-- **What lies under other names** is as it was when directories have been made on the way. -/
theorem get?_of_grown_apart {after : Tree} {other : String} (hne : other ≠ name ++ stagingMark)
    (hgrown : Grown (fun path => ∀ other, base ++ [other] <+: path → other = name ++ stagingMark)
      cleared after) (rest : Path) :
    after.get? (base ++ other :: rest) = tree.get? (base ++ other :: rest) := by
  have hin : base ++ [other] <+: base ++ other :: rest := ⟨rest, by simp⟩
  rw [← get?_cleared hplaced hremove hleads hbase fun h => hne (eq_of_concat h).symm]
  exact (hgrown.get?_cases _).resolve_right fun ⟨_, _, hinside⟩ => hne (hinside other hin)

end Apart

end Beginning

namespace Begun

variable (h : Begun tree cleared ready mid location dir name base)

include h

theorem start_eq (text : String) : mid.start text = tree.start text := by
  rw [start, start, h.here]

theorem reaches_ready : ready.Reaches (tree.start location) dir base :=
  h.ready ▸ h.reaches.put h.free _

theorem given : Path.Given (staging location) :=
  given_of_cleared (by simp [staging, stagingMark]) (cleared_of_removeIfThere h.removed)

/-- There is no database in the directory to build in. -/
theorem find_file (hplaced : Placed location dir name)
    (hgiven : Path.Given (Store.file (staging location))) :
    ready.find true (Store.file (staging location)) =
      .ok ⟨base ++ [name ++ stagingMark, "index.db"], none⟩ := by
  have hstart : ready.start (Store.file (staging location)) = tree.start location := by
    rw [h.ready, ← hplaced.start_eq tree (.inr (.inr rfl)), ← h.start_eq]
    rfl
  have hnone : ready.get? (base ++ [name ++ stagingMark, "index.db"]) = none := by
    rw [h.ready, get?_put_of_ne _ (by simp), List.append_cons]
    exact h.wellFormed.get?_below (by simp [HasDirectory, h.free]) _
  have hdir : ready.HasDirectory (base ++ [name ++ stagingMark]) :=
    hasDirectory_iff.mpr ⟨directoryMode, h.ready ▸ get?_put_self mid (by simp) _⟩
  have hleads := h.reaches_ready.leads_below true h.entering hdir entering_file (by simp [hnone])
  rw [hnone, ← hstart, ← hplaced.steps_stagingFile] at hleads
  exact find_eq_ok_iff.mpr ⟨hgiven, hleads⟩

/-- A database that is held is the one in the directory to build in. -/
theorem place_eq (hplaced : Placed location dir name) {store : Store} {place : Path} {held : Table}
    (hlocation : store.location = staging location) (hholds : store.Holds ready place held) :
    Path.Given (Store.file (staging location)) ∧
      place = base ++ [name ++ stagingMark, "index.db"] ∧ ready.get? place = none := by
  have hfound := hholds.found
  rw [hlocation] at hfound
  have hgiven := (find_eq_ok_iff.mp hfound).1
  rw [h.find_file hplaced hgiven] at hfound
  obtain ⟨rfl, hnone⟩ : base ++ [name ++ stagingMark, "index.db"] = place ∧
      none = ready.get? place := by
    simpa using hfound
  exact ⟨hgiven, rfl, hnone.symm⟩

/-! ### Taking it away again -/

theorem removed_mid (hplaced : Placed location dir name) :
    removeIfThere mid (staging location) = .ok mid := by
  have hstart : mid.start (staging location) = tree.start location := by
    rw [h.start_eq, hplaced.start_eq tree (.inl rfl)]
  exact removeIfThere_of_missing (removeDirectory_free h.free h.reaches h.entering
    ⟨hstart, hplaced.steps_staging⟩ h.given)

theorem removed_ready (hplaced : Placed location dir name) :
    removeIfThere ready (staging location) = .ok mid := by
  have hstart : mid.start (staging location) = tree.start location := by
    rw [h.start_eq, hplaced.start_eq tree (.inl rfl)]
  rw [h.ready]
  exact removeIfThere_of_ok (removeDirectory_put h.wellFormed h.free h.reaches h.entering
    ⟨hstart, hplaced.steps_staging⟩ h.given)

/-- **What is built is taken away** without a trace. -/
theorem removed_written (hplaced : Placed location dir name) (mode : Nat) (table : Table) :
    removeIfThere
        (Store.written ready (base ++ [name ++ stagingMark, "index.db"]) mode table)
        (staging location) = .ok mid := by
  have hstart : mid.start (staging location) = tree.start location := by
    rw [h.start_eq, hplaced.start_eq tree (.inl rfl)]
  rw [h.ready]
  exact removeIfThere_of_ok (removeDirectory_filled h.wellFormed h.free h.reaches h.entering
    ⟨hstart, hplaced.steps_staging⟩ h.given)

/-- Nothing is found where the collection was built. -/
theorem not_find_staging (hplaced : Placed location dir name) (path : Path) (entry : Entry) :
    mid.find false (staging location) ≠ .ok ⟨path, some entry⟩ := by
  have hstart : mid.start (staging location) = tree.start location := by
    rw [h.start_eq, hplaced.start_eq tree (.inl rfl)]
  simp [find_name h.reaches h.entering ⟨hstart, hplaced.steps_staging⟩ h.given, h.free]

/-- The way to the location stays the same. -/
theorem steady (hplaced : Placed location dir name) (hsteady : Steady tree location) :
    Steady mid location := by
  rcases hsteady with hup | ⟨other, hremove, hdir⟩
  · exact .inl hup
  · obtain rfl : cleared = other := by simpa [h.removed] using hremove
    refine .inr ⟨mid, h.removed_mid hplaced, ?_⟩
    rw [directoryOf, h.start_eq]
    exact h.grown.within.isDirectory hdir

/-! ### The location -/

/-- A location where nothing was has nothing before the collection is moved there. -/
theorem not_there (hplaced : Placed location dir name) (hnew : tree.isThere location = false) :
    mid.isThere location = false := by
  rcases h.fresh with rfl | hempty
  · exact (cleared_of_removeIfThere h.removed).within.isThere_eq_false hnew
  · rw [Bool.eq_false_iff]
    intro hthere
    obtain ⟨path, entry, hfind⟩ := isThere_iff.mp hthere
    have hleads := (find_eq_ok_iff.mp hfind).2
    rw [h.start_eq, hplaced.steps] at hleads
    have hentering : Entering name :=
      ⟨hplaced.isName.2.1, hplaced.isName.2.2.1, hleads.short name (by simp)⟩
    have hnone := hleads.unique (h.reaches.leads_name true hentering (by simp [hempty]))
    simp [hempty] at hnone

/-! ### What lies beside it -/

section Apart

variable {before : Path} (hwf : tree.WellFormed) (hopen : tree.HasDirectory (tree.start location))
  (hplaced : Placed location dir name) (hsteady : Steady tree location)
  (hleads : tree.Leads true linkLimit (tree.start location) dir ⟨before, tree.get? before⟩)
  (hbefore : tree.HasDirectory before)

include hwf hopen hplaced hsteady hleads hbefore

/-- The directory to build in does not lie under another name than its own where the way
led before. -/
theorem eq_of_isPrefix {other : String} (hin : before ++ [other] <+: base ++ [name ++ stagingMark]) :
    other = name ++ stagingMark := by
  have hgrown := grown_apart hwf hopen hplaced hsteady h.removed hleads hbefore h.made
  have hready : ready.get? (base ++ [name ++ stagingMark]) = some (.directory directoryMode) :=
    h.ready ▸ get?_put_self mid (by simp) _
  rcases hgrown.get?_cases (base ++ [name ++ stagingMark]) with hsame | ⟨-, -, hinside⟩
  · have hmid := h.grown.get?_of_some (hsame ▸ hready)
    simp [h.free] at hmid
  · exact hinside other hin

/-- **What lies under other names** is as it was before the build began. -/
theorem get?_apart {other : String} (hne : other ≠ name ++ stagingMark) (rest : Path) :
    mid.get? (before ++ other :: rest) = tree.get? (before ++ other :: rest) := by
  have hgrown := grown_apart hwf hopen hplaced hsteady h.removed hleads hbefore h.made
  rw [← get?_of_grown_apart hplaced h.removed hleads hbefore hne hgrown rest, h.ready,
    get?_put_of_ne]
  intro heq
  exact hne (h.eq_of_isPrefix hwf hopen hplaced hsteady hleads hbefore ⟨rest, by simpa using heq⟩)

/-- What lies under another name is not where the collection is built or moved. -/
theorem not_isPrefix {other new : String} (hfree : mid.get? (base ++ [new]) = none)
    (hne : other ≠ name ++ stagingMark) (hnew : other ≠ new) (rest : Path) :
    ¬ base ++ [new] <+: before ++ other :: rest := by
  intro hprefix
  have hin : before ++ [other] <+: before ++ other :: rest := ⟨rest, by simp⟩
  have hother (heq : base ++ [new] = before ++ [other]) : False :=
    hnew (by simpa using (List.append_inj' heq rfl).2.symm)
  rcases List.prefix_or_prefix_of_prefix hprefix hin with hbelow | habove
  · rcases List.prefix_concat_iff.mp hbelow with heq | hbelow
    · exact hother heq
    · -- The directory where the way led before is still there.
      obtain ⟨mode, hmode⟩ := hasDirectory_iff.mp hbefore
      have hstays : cleared.get? before = tree.get? before :=
        get?_cleared hplaced h.removed hleads hbefore fun h => by simpa using h.length_le
      exact not_below_of_free h.wellFormed hfree (h.grown.get?_of_some (hstays.trans hmode)) hbelow
  · rcases List.prefix_concat_iff.mp habove with heq | habove
    · exact hother heq.symm
    · exact hne (h.eq_of_isPrefix hwf hopen hplaced hsteady hleads hbefore
        (habove.trans (List.prefix_append ..)))

end Apart

end Begun

end Workbench.Index
