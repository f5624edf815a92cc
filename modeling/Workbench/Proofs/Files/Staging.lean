/-
# Making a directory, filling it and moving it away

A directory is made anew where a path leads, gets a file, and is moved to another name
beside it. When the path holds no `..`, all this happens in one directory (`Tree.Reaches`),
and the file is found under the new name afterwards.

* `Tree.exists_made` — **a directory that was cleared away is made anew**, and is empty.
* `Tree.find_moved` — **the file is found** where the directory is moved to.
-/

import Mathlib.Data.List.Find
import Workbench.Proofs.Files.Directories
import Workbench.Proofs.Files.Written

namespace Workbench.Files.Tree

variable {tree other : Tree} {follow : Bool} {start base path : Path} {dir : List String}
  {name below text : String} {entry : Entry}

/-! ### The directory that names are looked for in -/

/-- The names of a written path that starts at a directory lead to a directory. -/
structure Reaches (tree : Tree) (start : Path) (dir : List String) (base : Path) : Prop where
  opened : ∀ via, via <+: start → tree.HasDirectory via
  plain : Path.Plain start
  leads : tree.Leads true linkLimit [] (start ++ dir.filter (· != ".")) ⟨base, tree.get? base⟩
  directory : tree.HasDirectory base

namespace Reaches

theorem carry (h : tree.Reaches start dir base)
    (hdirs : ∀ path, tree.HasDirectory path → other.HasDirectory path)
    (hlinks : ∀ path target, tree.get? path = some (.link target) →
      other.get? path = some (.link target)) : other.Reaches start dir base where
  opened via hvia := hdirs via (h.opened via hvia)
  plain := h.plain
  leads := h.leads.carry hdirs hlinks h.directory
  directory := hdirs base h.directory

theorem put (h : tree.Reaches start dir base) (hfree : tree.get? path = none) (entry : Entry) :
    (tree.put path entry).Reaches start dir base := by
  refine h.carry (fun other hdir => hdir.put (by simp [HasDirectory, hfree])) ?_
  intro other target hlink
  rwa [get?_put_of_ne]
  rintro rfl
  simp [hfree] at hlink

theorem leads_iff (h : tree.Reaches start dir base) {more : List String} (hmore : more ≠ [])
    {links : Nat} {place : Place} :
    tree.Leads follow links start (dir ++ more) place ↔
      tree.Leads follow links [] (start ++ dir.filter (· != ".") ++ more) place := by
  have hshort (name : String) (mem : name ∈ start) : name.utf8ByteSize ≤ Path.nameLimit :=
    h.leads.short name (List.mem_append_left _ mem)
  rw [← walk_eq_ok_iff, ← walk_eq_ok_iff, walk_start h.opened h.plain hshort hmore]

/-- The directory that a written path leads to is reached, if its names can be read from the
root as well. -/
theorem of_leads (hwf : tree.WellFormed) (hopen : tree.HasDirectory start)
    (hshort : ∀ name ∈ start, name.utf8ByteSize ≤ Path.nameLimit)
    (h : tree.Leads true linkLimit start dir ⟨base, tree.get? base⟩)
    (hbase : tree.HasDirectory base) : tree.Reaches start dir base := by
  obtain ⟨mode, hmode⟩ := hasDirectory_iff.mp hopen
  have hvia (via : Path) (hin : via <+: start) : tree.HasDirectory via :=
    hwf.hasDirectory_above hopen hin
  -- Whatever would be read next is read from the root as well.
  have hnext : Entering "next" := ⟨by decide, by decide, by decide⟩
  have hall := h.concat false hbase hnext (by simp)
  rw [← walk_eq_ok_iff, walk_start hvia (hwf.plain hmode) hshort (by simp), walk_eq_ok_iff] at hall
  obtain ⟨real, hreal, hdir⟩ := hall.above (by simp) (hasDirectory_nil _) hwf
  obtain rfl : base = real := by
    simpa using congrArg Place.path (hall.unique (hreal.concat false hdir hnext (by simp)))
  exact ⟨hvia, hwf.plain hmode, hreal, hbase⟩

/-- A name is looked for in that directory. -/
theorem leads_name (h : tree.Reaches start dir base) (follow : Bool) (hname : Entering name)
    (hend : ∀ target, tree.get? (base ++ [name]) = some (.link target) → follow = false) :
    tree.Leads follow linkLimit start (dir ++ [name])
      ⟨base ++ [name], tree.get? (base ++ [name])⟩ :=
  (h.leads_iff (by simp)).mpr (h.leads.concat follow h.directory hname hend)

/-- A name below a directory there is looked for in it. -/
theorem leads_below (h : tree.Reaches start dir base) (follow : Bool) (hname : Entering name)
    (hdir : tree.HasDirectory (base ++ [name])) (hbelow : Entering below)
    (hend : ∀ target, tree.get? (base ++ [name, below]) = some (.link target) → follow = false) :
    tree.Leads follow linkLimit start (dir ++ [name, below])
      ⟨base ++ [name, below], tree.get? (base ++ [name, below])⟩ := by
  obtain ⟨mode, hmode⟩ := hasDirectory_iff.mp hdir
  have hname := h.leads.concat true h.directory hname (by simp [hmode])
  have hall := hname.concat follow hdir hbelow (by simpa using hend)
  refine (h.leads_iff (by simp)).mpr ?_
  simpa using hall

end Reaches

/-- The directory in which a written path names something, from the root and without `.`. -/
def directoryOf (tree : Tree) (text : String) : String :=
  Path.text (tree.start text ++ (Path.steps text).filter (· != ".")).dropLast

theorem directoryOf_eq (hsteps : Path.steps text = dir ++ [name]) (hname : name ≠ ".") :
    tree.directoryOf text = Path.text (tree.start text ++ dir.filter (· != ".")) := by
  simp [directoryOf, hsteps, List.filter_append, hname, ← List.append_assoc]

/-- The directories of a written path are made from the root on. -/
theorem makeDirectoriesTo_eq (hhere : other.here = tree.here)
    (hsteps : Path.steps text = dir ++ [name]) (hname : name ≠ ".") :
    other.makeDirectoriesTo text =
      other.makeDirectories (tree.start text ++ dir.filter (· != ".") ++ [name]).reverse := by
  simp [makeDirectoriesTo, start, hhere, hsteps, List.filter_append, hname, ← List.append_assoc]

namespace Reaches

variable (h : tree.Reaches start dir base) (hnamed : Path.Named dir) (hname : Path.IsName name)

include h hnamed hname

/-- The path from the root to a name in that directory can be written and read again. -/
theorem steps_text : Path.steps (Path.text (start ++ dir.filter (· != ".") ++ [name])) =
    start ++ dir.filter (· != ".") ++ [name] := by
  refine Path.steps_text_of_named fun step mem => ?_
  simp only [List.mem_append, List.mem_filter, List.mem_singleton] at mem
  rcases mem with (mem | ⟨mem, -⟩) | rfl
  · exact h.plain.named step mem
  · exact hnamed step mem
  · exact ⟨hname.1, hname.2.2.2⟩

/-- What is found by the path from the root is in that directory. -/
theorem eq_of_find_text {place : Place}
    (hfind : tree.find follow (Path.text (start ++ dir.filter (· != ".") ++ [name])) = .ok place)
    (hend : Entering name → ∀ target, tree.get? (base ++ [name]) = some (.link target) →
      follow = false) :
    Entering name ∧ place = ⟨base ++ [name], tree.get? (base ++ [name])⟩ := by
  have hleads := (find_eq_ok_iff.mp hfind).2
  rw [start_text, h.steps_text hnamed hname] at hleads
  have hentering : Entering name := ⟨hname.2.1, hname.2.2.1, hleads.short name (by simp)⟩
  exact ⟨hentering, hleads.unique (h.leads.concat follow h.directory hentering
    (hend hentering))⟩

/-- The directory is there, so a name in it is not missing but free, or too long. -/
theorem makeDirectory_ne_missing (hwf : tree.WellFormed) :
    tree.makeDirectory (Path.text (start ++ dir.filter (· != ".") ++ [name])) ≠
      .error .missing := by
  intro hmissing
  have hfind := makeDirectory_eq_missing_iff.mp hmissing
  rw [find_of_given (given_of_find (Path.text_ne_empty _) (.inr hfind)), start_text,
    h.steps_text hnamed hname, walk_concat (hasDirectory_nil _) hwf hname (by simp),
    h.leads.walk_eq, Attempt.ok_bind] at hfind
  obtain ⟨mode, hmode⟩ := hasDirectory_iff.mp h.directory
  simp only [enter, hmode] at hfind
  split at hfind <;> simp at hfind

end Reaches

/-! ### Clearing away -/

/-- What a path leads to is cleared away, if it is there. -/
def Cleared (tree : Tree) (text : String) (after : Tree) : Prop :=
  tree.removeDirectory text = .ok after ∨
    (tree.removeDirectory text = .error .missing ∧ after = tree)

/-- Clearing away takes away what is at and below a place, or a link. -/
theorem Cleared.cases {after : Tree} (h : tree.Cleared text after) :
    (∃ path mode, tree.find false text = .ok ⟨path, some (.directory mode)⟩ ∧
      after = tree.prune path) ∨
    (∃ path target, tree.find false text = .ok ⟨path, some (.link target)⟩ ∧
      after = tree.erase path) ∨
    (((∃ path, tree.find false text = .ok ⟨path, none⟩) ∨ tree.find false text = .error .missing) ∧
      after = tree) := by
  unfold Cleared removeDirectory at h
  cases hfind : tree.find false text with
  | error fault =>
      obtain ⟨rfl, rfl⟩ : fault = .missing ∧ after = tree := by simpa [hfind] using h
      exact .inr (.inr ⟨.inr rfl, rfl⟩)
  | ok place =>
      obtain ⟨path, entry⟩ := place
      match entry with
      | none =>
          obtain rfl : after = tree := by simpa [hfind] using h
          exact .inr (.inr ⟨.inl ⟨path, rfl⟩, rfl⟩)
      | some (.file _ _) => simp [hfind] at h
      | some (.directory mode) =>
          obtain rfl : tree.prune path = after := by simpa [hfind] using h
          exact .inl ⟨path, mode, rfl, rfl⟩
      | some (.link target) =>
          obtain rfl : tree.erase path = after := by simpa [hfind] using h
          exact .inr (.inl ⟨path, target, rfl, rfl⟩)

namespace Cleared

variable {after : Tree} (h : tree.Cleared text after)

include h

theorem get?_of_some (hentry : after.get? path = some entry) : tree.get? path = some entry := by
  by_cases hne : path = []
  · subst hne
    simpa using hentry
  · rcases h.cases with ⟨gone, _, -, rfl⟩ | ⟨gone, _, -, rfl⟩ | ⟨-, rfl⟩
    · rw [get?_prune tree hne] at hentry
      split at hentry
      · simp at hentry
      · exact hentry
    · by_cases heq : path = gone
      · subst heq
        simp [get?_erase_self tree hne] at hentry
      · rwa [get?_erase_of_ne tree heq] at hentry
    · exact hentry

theorem hasDirectory (hdir : after.HasDirectory path) : tree.HasDirectory path := by
  obtain ⟨mode, hmode⟩ := hasDirectory_iff.mp hdir
  exact hasDirectory_iff.mpr ⟨mode, h.get?_of_some hmode⟩

theorem wellFormed (hwf : tree.WellFormed) : after.WellFormed := by
  rcases h.cases with ⟨gone, _, -, rfl⟩ | ⟨gone, _, hfind, rfl⟩ | ⟨-, rfl⟩
  · exact hwf.prune gone
  · refine hwf.erase fun hdir => ?_
    obtain ⟨mode, hmode⟩ := hasDirectory_iff.mp hdir
    have hentry := (find_eq_ok_iff.mp hfind).2.entry_eq
    simp [hmode] at hentry
  · exact hwf

/-- Whatever a directory was reached through is there before it is cleared away, too. -/
theorem reaches (hreaches : after.Reaches start dir base) : tree.Reaches start dir base :=
  hreaches.carry (fun _ => h.hasDirectory) fun _ _ => h.get?_of_some

/-- What a path leads to is not there when it has been cleared away. -/
theorem get?_eq_none (hsteps : Path.steps text = dir ++ [name])
    (hreaches : tree.Reaches (tree.start text) dir base) (hname : Entering name) :
    after.get? (base ++ [name]) = none := by
  have hbefore := hreaches.leads_name false hname (by simp)
  rw [← hsteps] at hbefore
  rcases h.cases with ⟨gone, _, hfind, rfl⟩ | ⟨gone, _, hfind, rfl⟩ | ⟨hfind, rfl⟩
  · obtain rfl : base ++ [name] = gone :=
      congrArg Place.path (hbefore.unique (find_eq_ok_iff.mp hfind).2)
    simp [get?_prune tree]
  · obtain rfl : base ++ [name] = gone :=
      congrArg Place.path (hbefore.unique (find_eq_ok_iff.mp hfind).2)
    exact get?_erase_self tree (by simp)
  · have hne : text ≠ "" := by
      rintro rfl
      simp [show Path.steps "" = [] from by decide] at hsteps
    have hgiven : Path.Given text :=
      given_of_find hne (hfind.imp_left fun ⟨path, hpath⟩ => ⟨_, hpath⟩)
    have hat := find_eq_ok_iff.mpr ⟨hgiven, hbefore⟩
    rcases hfind with ⟨path, hpath⟩ | hmissing
    · exact congrArg Place.entry (hbefore.unique (find_eq_ok_iff.mp hpath).2)
    · simp [hat] at hmissing

theorem not_directory (hwf : tree.WellFormed) (hhere : tree.HasDirectory (tree.start text))
    (hsteps : Path.steps text = dir ++ [name])
    (hplain : Path.Plain (tree.start text ++ dir.filter (· != ".") ++ [name])) :
    after.isDirectory (Path.text (tree.start text ++ dir.filter (· != ".") ++ [name])) = false := by
  rw [Bool.eq_false_iff]
  intro hdir
  obtain ⟨real, mode, hfound⟩ := isDirectory_iff.mp hdir
  have hafter := leads_of_find hplain hfound
  obtain ⟨hstart, hname⟩ := Path.plain_append.mp hplain
  obtain ⟨-, hdot, hup, -⟩ := Path.plain_singleton.mp hname
  have hentering : Entering name := ⟨hdot, hup, hafter.short name (by simp)⟩
  obtain ⟨base, habove, hbase⟩ :=
    hafter.above (by simp) (hasDirectory_nil _) (h.wellFormed hwf)
  -- The directory above led to the same place before.
  have hgone := h.get?_eq_none hsteps ⟨fun _ => hwf.hasDirectory_above hhere,
    (Path.plain_append.mp hstart).1,
    habove.carry (fun _ => h.hasDirectory) (fun _ _ => h.get?_of_some) hbase,
    h.hasDirectory hbase⟩ hentering
  have hlast := habove.concat true hbase hentering (by simp [hgone])
  simpa [hgone] using congrArg Place.entry (hlast.unique hafter)

theorem here_eq : after.here = tree.here := by
  rcases h.cases with ⟨_, _, -, rfl⟩ | ⟨_, _, -, rfl⟩ | ⟨-, rfl⟩ <;> rfl

/-- The directory where a path starts is still there if the way leads through it. -/
theorem reaches_of_leads (hwf : tree.WellFormed) (hhere : tree.HasDirectory (tree.start text))
    {inside : Path → Prop} {mid : Tree} {mode : Nat} (hgrown : Grown inside after mid)
    (hleads : mid.Leads true linkLimit [] (tree.start text ++ dir.filter (· != "."))
      ⟨base, some (.directory mode)⟩) : mid.Reaches (tree.start text) dir base := by
  obtain ⟨_, hstart⟩ := hasDirectory_iff.mp hhere
  have hwfMid : mid.WellFormed := hgrown.wellFormed (h.wellFormed hwf)
  have hbase : mid.HasDirectory base := hasDirectory_iff.mpr ⟨mode, hleads.entry_eq⟩
  have hno (via : Path) (target : String) (hvia : via <+: tree.start text) :
      mid.get? via ≠ some (.link target) := by
    intro hlink
    rcases hgrown.get?_cases via with hsame | ⟨-, hnew, -⟩
    · exact not_link_above hwf hstart (by simp) hvia target (h.get?_of_some (hsame ▸ hlink))
    · simp [hlink] at hnew
  -- Whatever would be read next, the way to it leads through that directory.
  have hnext : Entering "next" := ⟨by decide, by decide, by decide⟩
  have hall := hleads.concat false hbase hnext (by simp)
  rw [List.append_assoc] at hall
  obtain ⟨real, hreal, hdir⟩ := hall.above (by simp) (hasDirectory_nil _) hwfMid
  obtain rfl : real = tree.start text := by
    simpa using congrArg Place.path
      (hreal.direct (hwf.plain hstart) fun via target hvia => hno via target hvia)
  exact ⟨fun _ => hwfMid.hasDirectory_above hdir, hwf.plain hstart, hleads.entry_eq ▸ hleads, hbase⟩

/-- **A directory that was cleared away is made anew**, in a directory in which there was
nothing of its name, and nothing at all if it had to be made as well. -/
theorem exists_made (hwf : tree.WellFormed) (hhere : tree.HasDirectory (tree.start text))
    (hsteps : Path.steps text = dir ++ [name])
    (hplain : Path.Plain (tree.start text ++ dir.filter (· != ".") ++ [name])) {ready : Tree}
    (hmake : after.makeDirectoriesTo text = (none, ready)) :
    ∃ mid base, Grown (fun _ => True) after mid ∧
      (mid = after ∨ ∀ other, mid.get? (base ++ [other]) = none) ∧
      mid.makeDirectoriesTo text = (none, ready) ∧ mid.Reaches (tree.start text) dir base ∧
      Entering name ∧ mid.get? (base ++ [name]) = none ∧
      ready = mid.put (base ++ [name]) (.directory directoryMode) := by
  obtain ⟨habove, hname⟩ := Path.plain_append.mp hplain
  obtain ⟨-, hdot, hup, -⟩ := Path.plain_singleton.mp hname
  rw [makeDirectoriesTo_eq h.here_eq hsteps hdot] at hmake
  obtain ⟨mid, base, mode, hgrown, hbase, hagain, hfind, hshort, hfree, rfl⟩ :=
    makeDirectories_made (h.wellFormed hwf) hplain (h.not_directory hwf hhere hsteps hplain) hmake
  refine ⟨mid, base, hgrown, hbase, ?_, h.reaches_of_leads hwf hhere hgrown
    (leads_of_find habove hfind), ⟨hdot, hup, hshort⟩, hfree, rfl⟩
  rw [makeDirectoriesTo_eq (hgrown.here_eq.trans h.here_eq) hsteps hdot, makeDirectories_of_ok hagain]

/-- **A directory that was cleared away is made anew** where it was, if the directory in
which it was is still there. -/
theorem made_there (hwf : tree.WellFormed) (hsteps : Path.steps text = dir ++ [name])
    (hnamed : Path.Named dir) (hname : Path.IsName name)
    (hreaches : after.Reaches (tree.start text) dir base) {outcome : Option Fault} {ready : Tree}
    (hmake : after.makeDirectoriesTo text = (outcome, ready)) :
    (∃ fault, outcome = some fault ∧ ready = after) ∨
    (outcome = none ∧ Entering name ∧ after.get? (base ++ [name]) = none ∧
      ready = after.put (base ++ [name]) (.directory directoryMode)) := by
  rw [makeDirectoriesTo_eq h.here_eq hsteps hname.2.1] at hmake
  have hgone (hentering : Entering name) : after.get? (base ++ [name]) = none :=
    h.get?_eq_none hsteps (h.reaches hreaches) hentering
  rcases makeDirectories_concat_cases hmake with (⟨hmade, rfl⟩ | ⟨rfl, hdir⟩) | ⟨hmissing, -⟩
  · obtain ⟨new, hfind, rfl⟩ := makeDirectory_eq_ok_iff.mp hmade
    obtain ⟨hentering, hnew⟩ := hreaches.eq_of_find_text hnamed hname hfind (by simp)
    obtain rfl : new = base ++ [name] := congrArg Place.path hnew
    exact .inr ⟨rfl, hentering, hgone hentering, rfl⟩
  · cases outcome with
    | some fault => exact .inl ⟨fault, rfl, rfl⟩
    | none =>
        obtain ⟨_, _, hfind⟩ := isDirectory_iff.mp hdir
        obtain ⟨hentering, hplace⟩ := hreaches.eq_of_find_text hnamed hname hfind
          fun hentering => by simp [hgone hentering]
        simp [hgone hentering] at hplace
  · exact absurd hmissing (hreaches.makeDirectory_ne_missing hnamed hname (h.wellFormed hwf))

end Cleared

/-! ### Moving a directory -/

section Move

variable {source target : Path}

/-- Where an entry is after a directory was moved. -/
def movedTo (source target path : Path) : Path :=
  if source.isPrefixOf path then target ++ path.drop source.length else path

theorem entries_move (tree : Tree) (source target : Path) :
    (tree.move source target).entries = (tree.entries.filter (·.1 != target)).map fun e =>
      (movedTo source target e.1, e.2) := by
  refine List.map_congr_left fun ⟨path, entry⟩ _ => ?_
  show (if source.isPrefixOf path then (target ++ path.drop source.length, entry)
    else (path, entry)) = (movedTo source target path, entry)
  unfold movedTo
  split <;> rfl

theorem get?_move {old : Path} (hpath : path ≠ []) (hold : old ≠ [])
    (h : ∀ e ∈ tree.entries, (e.1 ≠ target ∧ movedTo source target e.1 = path) ↔ e.1 = old) :
    (tree.move source target).get? path = tree.get? old := by
  rw [get?_of_ne_nil _ hpath, get?_of_ne_nil _ hold, entries_move, List.find?_map,
    List.find?_filter, Option.map_map]
  congr 1
  refine List.find?_congr fun e mem => ?_
  rw [Bool.eq_iff_iff]
  simpa using h e mem

theorem get?_move_elsewhere (hsource : ¬ source <+: path) (htarget : ¬ target <+: path) :
    (tree.move source target).get? path = tree.get? path := by
  by_cases hne : path = []
  · simp [hne]
  refine get?_move hne hne fun e _ => ?_
  unfold movedTo
  split
  · next hmoved =>
      rw [List.isPrefixOf_iff_prefix] at hmoved
      constructor
      · rintro ⟨-, rfl⟩
        exact absurd (List.prefix_append ..) htarget
      · rintro rfl
        exact absurd hmoved hsource
  · constructor
    · exact fun h => h.2
    · rintro rfl
      exact ⟨fun heq => htarget (heq ▸ List.prefix_refl _), rfl⟩

theorem get?_move_target (hsource : source ≠ []) (htarget : target ≠ []) (hno : ¬ source <+: target)
    (hempty : ∀ e ∈ tree.entries, target <+: e.1 → e.1 = target) (rest : Path) :
    (tree.move source target).get? (target ++ rest) = tree.get? (source ++ rest) := by
  refine get?_move (by simp [htarget]) (by simp [hsource]) fun e mem => ?_
  unfold movedTo
  split
  · next hmoved =>
      obtain ⟨more, hmore⟩ := List.isPrefixOf_iff_prefix.mp hmoved
      have hne : e.1 ≠ target := fun heq => hno (heq ▸ List.isPrefixOf_iff_prefix.mp hmoved)
      simp [← hmore, hmore ▸ hne]
  · next hstays =>
      constructor
      · rintro ⟨hne, heq⟩
        exact absurd (hempty e mem (heq ▸ List.prefix_append ..)) hne
      · intro heq
        exact absurd (List.isPrefixOf_iff_prefix.mpr (heq ▸ List.prefix_append ..)) hstays

/-- Nothing is below an empty directory. -/
theorem below_eq_nil_iff :
    tree.below path = [] ↔ ∀ e ∈ tree.entries, path <+: e.1 → e.1 = path := by
  unfold below
  rw [List.filterMap_eq_nil_iff]
  refine forall₂_congr fun ⟨other, entry⟩ _ => ?_
  by_cases hbelow : path <+: other <;> simp [hbelow]

/-- A place to which a directory can be moved: nothing is there, or an empty directory. -/
def Vacant (tree : Tree) (place : Place) : Prop :=
  place.entry = none ∨ (∃ mode, place.entry = some (.directory mode)) ∧ tree.below place.path = []

/-- **A directory is moved** to a vacant place. -/
theorem rename_eq_ok_iff {here there : String} {after : Tree} {mode : Nat}
    (hfind : tree.find false here = .ok ⟨source, some (.directory mode)⟩)
    (hne : ∀ place, tree.find false there = .ok place → source ≠ place.path) :
    tree.rename here there = .ok after ↔ ∃ place, tree.find false there = .ok place ∧
      tree.Vacant place ∧ after = tree.move source place.path := by
  unfold rename Vacant
  cases hthere : tree.find false there with
  | error fault => simp [hfind]
  | ok place =>
      have hother := hne place hthere
      obtain ⟨target, entry⟩ := place
      simp only [hfind, Attempt.ok_bind, if_neg hother]
      match entry with
      | none => simpa using eq_comm
      | some (.file _ _) => simp
      | some (.link _) => simp
      | some (.directory mode) =>
          by_cases hbelow : tree.below target = []
          · simpa [hbelow] using eq_comm
          · simp [hbelow]

/-- **If a directory can be moved** to a place beside it, that is vacant, and that is where it
is moved. -/
theorem vacant_of_rename {made moved : Tree} {old new here there : String} {mode : Nat}
    (hreach : made.Reaches start dir base)
    (hat : made.get? (base ++ [old]) = some (.directory mode)) (hold : Entering old)
    (hnew : Path.IsName new) (hne : new ≠ old)
    (hhere : made.start here = start ∧ Path.steps here = dir ++ [old])
    (hthere : made.start there = start ∧ Path.steps there = dir ++ [new])
    (hrename : made.rename here there = .ok moved) :
    Path.Given here ∧ Path.Given there ∧ Entering new ∧
      made.Vacant ⟨base ++ [new], made.get? (base ++ [new])⟩ ∧
      moved = made.move (base ++ [old]) (base ++ [new]) := by
  cases hfind : made.find false here with
  | error fault => simp [rename, hfind] at hrename
  | ok place =>
      obtain ⟨hgiven, hleads⟩ := find_eq_ok_iff.mp hfind
      rw [hhere.1, hhere.2] at hleads
      obtain rfl := (hreach.leads_name false hold (by simp)).unique hleads
      rw [hat] at hfind
      have hwhere {place : Place} (hfind : made.find false there = .ok place) :
          Path.Given there ∧ Entering new ∧
            place = ⟨base ++ [new], made.get? (base ++ [new])⟩ := by
        obtain ⟨hgiven, hleads⟩ := find_eq_ok_iff.mp hfind
        rw [hthere.1, hthere.2] at hleads
        have hentering : Entering new := ⟨hnew.2.1, hnew.2.2.1, hleads.short new (by simp)⟩
        exact ⟨hgiven, hentering, hleads.unique (hreach.leads_name false hentering (by simp))⟩
      obtain ⟨place, hplace, hvacant, rfl⟩ := (rename_eq_ok_iff hfind fun place hplace => by
        simpa [(hwhere hplace).2.2] using hne.symm).mp hrename
      obtain ⟨hgivenThere, hentering, rfl⟩ := hwhere hplace
      exact ⟨hgiven, hgivenThere, hentering, hvacant, rfl⟩

end Move

/-! ### All of it -/

section Moved

variable {mid : Tree} {old new : String} {mode : Nat} {content : Content}

/-- A directory made in another, with a file in it. -/
def filled (mid : Tree) (base : Path) (old below : String) (mode : Nat) (content : Content) :
    Tree :=
  (mid.put (base ++ [old]) (.directory directoryMode)).put (base ++ [old, below])
    (.file mode content)

theorem get?_filled_old (mid : Tree) (base : Path) (old below : String) (mode : Nat)
    (content : Content) :
    (mid.filled base old below mode content).get? (base ++ [old]) =
      some (.directory directoryMode) := by
  rw [filled, get?_put_of_ne _ (by simp), get?_put_self mid (by simp)]

theorem get?_filled_below (mid : Tree) (base : Path) (old below : String) (mode : Nat)
    (content : Content) :
    (mid.filled base old below mode content).get? (base ++ [old, below]) =
      some (.file mode content) :=
  get?_put_self _ (by simp) _

/-- Nothing is at or below a place that is free. -/
theorem not_below_of_free {free : Path} (hwf : tree.WellFormed) (hfree : tree.get? free = none)
    (hentry : tree.get? path = some entry) : ¬ free <+: path := by
  intro hbelow
  by_cases heq : free = path
  · simp [← heq, hfree] at hentry
  · have := hwf.above hentry hbelow heq
    simp [HasDirectory, hfree] at this

variable (hwf : mid.WellFormed) (hfree : mid.get? (base ++ [old]) = none)

include hwf hfree

theorem get?_filled (hentry : mid.get? path = some entry) :
    (mid.filled base old below mode content).get? path = some entry := by
  have hno := not_below_of_free hwf hfree hentry
  unfold filled
  rw [get?_put_of_ne, get?_put_of_ne, hentry]
  · rintro rfl
    exact hno (List.prefix_refl _)
  · rintro rfl
    exact hno ⟨[below], by simp⟩

theorem Reaches.filled {start : Path} {dir : List String} (h : mid.Reaches start dir base) :
    (mid.filled base old below mode content).Reaches start dir base := by
  refine h.carry (fun path hdir => ?_) fun path target => get?_filled hwf hfree
  obtain ⟨mode, hmode⟩ := hasDirectory_iff.mp hdir
  exact hasDirectory_iff.mpr ⟨mode, get?_filled hwf hfree hmode⟩

theorem wellFormed_filled (hbase : mid.HasDirectory base) (hplain : Path.Plain [old, below]) :
    (mid.filled base old below mode content).WellFormed := by
  obtain ⟨mode, hmode⟩ := hasDirectory_iff.mp hbase
  have hnames := hwf.plain hmode
  have hmade : (mid.put (base ++ [old]) (.directory directoryMode)).WellFormed := by
    refine hwf.put (by simp) (Path.plain_append.mpr ⟨hnames, ?_⟩) (by simpa using hbase)
      fun _ => rfl
    exact hplain.of_isPrefix ⟨[below], rfl⟩
  refine hmade.put (by simp) (Path.plain_append.mpr ⟨hnames, hplain⟩) ?_ fun hdir => ?_
  · have hlast : (base ++ [old, below]).dropLast = base ++ [old] := by
      rw [List.append_cons base old [below], List.dropLast_concat]
    rw [hlast]
    exact hasDirectory_iff.mpr ⟨directoryMode, get?_put_self mid (by simp) _⟩
  · have hnone : mid.get? (base ++ [old, below]) = none := by
      rw [List.append_cons]
      exact hwf.get?_below (by simp [HasDirectory, hfree]) below
    rw [HasDirectory, get?_put_of_ne _ (by simp), hnone] at hdir
    simp at hdir

/-- A vacant place beside the directory is still so when the file is in it. -/
theorem below_filled (hbase : mid.HasDirectory base) (hplain : Path.Plain [old, below])
    (hne : new ≠ old) (hvacant : (mid.put (base ++ [old]) (.directory directoryMode)).Vacant
      ⟨base ++ [new], mid.get? (base ++ [new])⟩) :
    (mid.filled base old below mode content).below (base ++ [new]) = [] := by
  rw [below_eq_nil_iff]
  intro e mem hbelow
  rcases hvacant with hnone | ⟨-, hempty⟩
  · have hwfFull : (mid.filled base old below mode content).WellFormed :=
      wellFormed_filled hwf hfree hbase hplain
    by_contra hother
    have habove := hwfFull.above (hwfFull.get?_of_mem mem) hbelow (Ne.symm hother)
    have hgone : (mid.filled base old below mode content).get? (base ++ [new]) = none := by
      rw [filled, get?_put_of_ne _ (by simp), get?_put_of_ne _ (by simpa using hne)]
      exact hnone
    simp [HasDirectory, hgone] at habove
  · rcases mem_of_mem_putIn mem with rfl | hmem
    · simp [List.prefix_append_right_inj, hne] at hbelow
    · exact below_eq_nil_iff.mp hempty e hmem hbelow

section Vacated

variable (hbase : mid.HasDirectory base) (hplain : Path.Plain [old, below]) (hne : new ≠ old)
  (hvacant : (mid.put (base ++ [old]) (.directory directoryMode)).Vacant
    ⟨base ++ [new], mid.get? (base ++ [new])⟩)

include hbase hplain hne hvacant

/-- What was in the directory is where it is moved to. -/
theorem get?_move_filled_target (rest : Path) :
    ((mid.filled base old below mode content).move (base ++ [old]) (base ++ [new])).get?
        (base ++ [new] ++ rest) =
      (mid.filled base old below mode content).get? (base ++ [old] ++ rest) :=
  get?_move_target (by simp) (by simp) (by simpa using hne.symm)
    (below_eq_nil_iff.mp (below_filled hwf hfree hbase hplain hne hvacant)) rest

theorem hasDirectory_moved :
    ((mid.filled base old below mode content).move (base ++ [old]) (base ++ [new])).HasDirectory
      (base ++ [new]) := by
  refine hasDirectory_iff.mpr ⟨directoryMode, ?_⟩
  rw [← get?_filled_old mid base old below mode content]
  simpa using get?_move_filled_target hwf hfree hbase hplain hne hvacant []

theorem get?_moved_below :
    ((mid.filled base old below mode content).move (base ++ [old]) (base ++ [new])).get?
        (base ++ [new, below]) = some (.file mode content) := by
  rw [← get?_filled_below mid base old below mode content]
  simpa using get?_move_filled_target hwf hfree hbase hplain hne hvacant [below]

/-- What was there before stays where it was, but for an empty directory at the new place. -/
theorem get?_move_filled (hentry : mid.get? path = some entry) (hother : path ≠ base ++ [new]) :
    ((mid.filled base old below mode content).move (base ++ [old]) (base ++ [new])).get? path =
      some entry := by
  have hkept : (mid.filled base old below mode content).get? path = some entry :=
    get?_filled hwf hfree hentry
  rw [get?_move_elsewhere (not_below_of_free hwf hfree hentry), hkept]
  intro hin
  have hnil : path ≠ [] := by
    rintro rfl
    simp at hin
  exact hother (below_eq_nil_iff.mp (below_filled hwf hfree hbase hplain hne hvacant) _
    (mem_of_get?_eq_some hnil hkept) hin)

/-- The directory in which all this happens is reached afterwards, too. -/
theorem Reaches.moved {start : Path} {dir : List String} (h : mid.Reaches start dir base) :
    ((mid.filled base old below mode content).move (base ++ [old]) (base ++ [new])).Reaches
      start dir base := by
  refine h.carry (fun path hdir => ?_) fun path target hlink =>
    get?_move_filled hwf hfree hbase hplain hne hvacant hlink ?_
  · by_cases heq : path = base ++ [new]
    · rw [heq]
      exact hasDirectory_moved hwf hfree hbase hplain hne hvacant
    · obtain ⟨was, hwas⟩ := hasDirectory_iff.mp hdir
      exact hasDirectory_iff.mpr
        ⟨was, get?_move_filled hwf hfree hbase hplain hne hvacant hwas heq⟩
  · rintro rfl
    rcases hvacant with hnone | ⟨⟨mode, hdir⟩, -⟩
    · simp [show mid.get? (base ++ [new]) = none from hnone] at hlink
    · simp [show mid.get? (base ++ [new]) = some _ from hdir] at hlink

end Vacated

section Renamed

variable {start : Path} {dir : List String} {here there text : String} {moved : Tree}
  (hreach : mid.Reaches start dir base) (hplain : Path.Plain [old, below])
  (hold : Entering old) (hnew : Path.IsName new) (hne : new ≠ old)
  (hhere : mid.start here = start ∧ Path.steps here = dir ++ [old])
  (hthere : mid.start there = start ∧ Path.steps there = dir ++ [new])
  (hrename : (mid.put (base ++ [old]) (.directory directoryMode)).rename here there = .ok moved)

include hreach hold hnew hne hhere hthere hrename

omit hwf in
/-- If a directory that was just made can be moved to a place beside it, that is vacant. -/
theorem vacant_of_rename_put :
    Path.Given here ∧ Path.Given there ∧ Entering new ∧
      (mid.put (base ++ [old]) (.directory directoryMode)).Vacant
        ⟨base ++ [new], mid.get? (base ++ [new])⟩ := by
  have hstays : (mid.put (base ++ [old]) (.directory directoryMode)).get? (base ++ [new]) =
      mid.get? (base ++ [new]) := get?_put_of_ne mid (by simpa using hne) _
  obtain ⟨hgiven, hgivenThere, hentering, hvacant, -⟩ := vacant_of_rename (hreach.put hfree _)
    (get?_put_self mid (by simp) _) hold hnew hne hhere hthere hrename
  exact ⟨hgiven, hgivenThere, hentering, hstays ▸ hvacant⟩

include hplain

/-- The directory with the file in it is moved to the same place. -/
theorem rename_filled :
    (mid.filled base old below mode content).rename here there =
      .ok ((mid.filled base old below mode content).move (base ++ [old]) (base ++ [new])) := by
  obtain ⟨hgiven, hgivenThere, hentering, hvacant⟩ :=
    vacant_of_rename_put hfree hreach hold hnew hne hhere hthere hrename
  have hother : base ++ [new] ≠ base ++ [old] := by simpa using hne
  have hfull : (mid.filled base old below mode content).Reaches start dir base :=
    hreach.filled hwf hfree
  have hat := get?_filled_old mid base old below mode content
  have hstays : (mid.filled base old below mode content).get? (base ++ [new]) =
      mid.get? (base ++ [new]) := by
    rw [filled, get?_put_of_ne _ (by simp), get?_put_of_ne _ hother]
  have hempty : (mid.filled base old below mode content).below (base ++ [new]) = [] :=
    below_filled hwf hfree hreach.directory hplain hne hvacant
  have hstart (text : String) : (mid.filled base old below mode content).start text =
      mid.start text := rfl
  generalize mid.filled base old below mode content = full at *
  have hfind : full.find false here = .ok ⟨base ++ [old], some (.directory directoryMode)⟩ := by
    rw [← hat]
    refine find_eq_ok_iff.mpr ⟨hgiven, ?_⟩
    rw [hstart, hhere.1, hhere.2]
    exact hfull.leads_name false hold (by simp)
  have hfindThere : full.find false there = .ok ⟨base ++ [new], mid.get? (base ++ [new])⟩ := by
    rw [← hstays]
    refine find_eq_ok_iff.mpr ⟨hgivenThere, ?_⟩
    rw [hstart, hthere.1, hthere.2]
    exact hfull.leads_name false hentering (by simp)
  refine (rename_eq_ok_iff hfind fun place hplace => ?_).mpr
    ⟨_, hfindThere, hvacant.imp_right fun ⟨hdir, _⟩ => ⟨hdir, hempty⟩, rfl⟩
  obtain rfl := Except.ok.inj (hfindThere.symm.trans hplace)
  exact hother.symm

/-- **The file is found** where the directory is moved to. -/
theorem find_moved (hbelow : Entering below)
    (htext : mid.start text = start ∧ Path.steps text = dir ++ [new, below])
    (hgiven : Path.Given text) :
    ((mid.filled base old below mode content).move (base ++ [old]) (base ++ [new])).find true text =
      .ok ⟨base ++ [new, below], some (.file mode content)⟩ := by
  obtain ⟨-, -, hentering, hvacant⟩ :=
    vacant_of_rename_put hfree hreach hold hnew hne hhere hthere hrename
  have hbase := hreach.directory
  have hfile : ((mid.filled base old below mode content).move (base ++ [old]) (base ++ [new])).get?
      (base ++ [new, below]) = some (.file mode content) :=
    get?_moved_below hwf hfree hbase hplain hne hvacant
  have hafter : ((mid.filled base old below mode content).move (base ++ [old])
      (base ++ [new])).Reaches start dir base :=
    hreach.moved hwf hfree hbase hplain hne hvacant
  have hleads := hafter.leads_below true hentering
    (hasDirectory_moved hwf hfree hbase hplain hne hvacant) hbelow (by simp [hfile])
  rw [hfile, ← htext.1, ← htext.2] at hleads
  exact find_eq_ok_iff.mpr ⟨hgiven, hleads⟩

end Renamed

end Moved

end Workbench.Files.Tree
