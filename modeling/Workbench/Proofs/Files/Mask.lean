/-
# What lies elsewhere, unread

A tree as one sees it who may not read files outside a directory: everything is where it
is, with its permissions, but the files elsewhere are blank (`Tree.masked`). Two trees
that are masked alike differ only in what files outside the directory hold.

Where a path leads, and what kind of entry is there, does not depend on what files hold;
so every access does the same to a tree and to the masked tree, as far as the mask shows
(`find_masked`, `makeDirectories_masked`, `rewrite_masked`).
-/

import Workbench.Proofs.Project.Resolving

namespace Workbench.Files

/-- An entry, with nothing in it if it is a file. -/
def Entry.blank : Entry → Entry
  | .file mode _ => .file mode (.text "")
  | entry => entry

/-- An entry as it is seen at a place: a file outside the directory is blank. -/
def Entry.maskedAt (root path : Path) (entry : Entry) : Entry :=
  if root.isPrefixOf path then entry else entry.blank

/-- A place as it is seen. -/
def Place.masked (root : Path) (place : Place) : Place :=
  ⟨place.path, place.entry.map (Entry.maskedAt root place.path)⟩

/-- A tree as it is seen: the files outside a directory are blank. -/
def Tree.masked (root : Path) (tree : Tree) : Tree :=
  { tree with entries := tree.entries.map fun (path, entry) => (path, entry.maskedAt root path) }

namespace Entry

variable {root path : Path} {entry : Entry}

theorem maskedAt_inside (h : root <+: path) (entry : Entry) : entry.maskedAt root path = entry := by
  simp [maskedAt, List.isPrefixOf_iff_prefix.mpr h]

@[simp] theorem maskedAt_directory (root path : Path) (mode : Nat) :
    (directory mode).maskedAt root path = directory mode := by
  simp [maskedAt, blank]

@[simp] theorem maskedAt_link (root path : Path) (target : String) :
    (link target).maskedAt root path = link target := by
  simp [maskedAt, blank]

theorem maskedAt_file (root path : Path) (mode : Nat) (content : Content) :
    ∃ seen, (file mode content).maskedAt root path = file mode seen := by
  unfold maskedAt
  split
  · exact ⟨content, rfl⟩
  · exact ⟨.text "", rfl⟩

@[simp] theorem maskedAt_maskedAt (root path : Path) (entry : Entry) :
    (entry.maskedAt root path).maskedAt root path = entry.maskedAt root path := by
  unfold maskedAt
  split
  · rfl
  · cases entry <;> rfl

@[simp] theorem isDirectory_maskedAt :
    (entry.maskedAt root path).isDirectory = entry.isDirectory := by
  unfold maskedAt
  split
  · rfl
  · cases entry <;> rfl

@[simp] theorem mode_maskedAt : (entry.maskedAt root path).mode = entry.mode := by
  unfold maskedAt
  split
  · rfl
  · cases entry <;> rfl

@[simp] theorem maskedAt_eq_link_iff {target : String} :
    entry.maskedAt root path = link target ↔ entry = link target := by
  unfold maskedAt
  split
  · rfl
  · cases entry <;> simp [blank]

end Entry

theorem Place.any_isDirectory_masked (root : Path) (place : Place) :
    (place.masked root).entry.any Entry.isDirectory = place.entry.any Entry.isDirectory := by
  cases h : place.entry <;> simp [masked, h]

namespace Tree

variable {root path : Path} {tree other : Tree} {follow : Bool} {text : String}

/-! ### Entries -/

@[simp] theorem masked_masked (root : Path) (tree : Tree) :
    (tree.masked root).masked root = tree.masked root := by
  simp [masked]

theorem map_fst_masked (root : Path) (tree : Tree) :
    (tree.masked root).entries.map (·.1) = tree.entries.map (·.1) := by
  simp [masked]

theorem get?_masked (root : Path) (tree : Tree) (path : Path) :
    (tree.masked root).get? path = (tree.get? path).map (Entry.maskedAt root path) := by
  by_cases hne : path = []
  · subst hne
    simp
  · rw [get?_of_ne_nil _ hne, get?_of_ne_nil _ hne]
    have hfind : (tree.masked root).entries.find? (·.1 == path) =
        (tree.entries.find? (·.1 == path)).map fun (p, e) => (p, e.maskedAt root p) :=
      List.find?_map
    rw [hfind]
    cases h : tree.entries.find? (·.1 == path) with
    | none => rfl
    | some e =>
        have hpath : e.1 = path := by simpa using List.find?_some h
        simp [hpath]

theorem putIn_masked (root path : Path) (entry : Entry) (entries : List (Path × Entry)) :
    (putIn path entry entries).map (fun (p, e) => (p, e.maskedAt root p)) =
      putIn path (entry.maskedAt root path)
        (entries.map fun (p, e) => (p, e.maskedAt root p)) := by
  induction entries with
  | nil => rfl
  | cons first rest ih =>
      obtain ⟨place, old⟩ := first
      by_cases h : place = path
      · simp [putIn, h]
      · simpa [putIn, h] using ih

theorem put_masked (root : Path) (tree : Tree) (path : Path) (entry : Entry) :
    (tree.put path entry).masked root = (tree.masked root).put path (entry.maskedAt root path) := by
  simp only [masked, put, putIn_masked]

theorem erase_masked (root : Path) (tree : Tree) (path : Path) :
    (tree.erase path).masked root = (tree.masked root).erase path := by
  simp only [masked, erase, List.filter_map]
  rfl

/-- Whatever was put somewhere, it does not matter whether the tree was masked before. -/
theorem masked_put_masked (root : Path) (tree : Tree) (path : Path) (entry : Entry) :
    ((tree.masked root).put path entry).masked root = (tree.put path entry).masked root := by
  rw [put_masked, put_masked, masked_masked]

theorem hasDirectory_masked : (tree.masked root).HasDirectory path ↔ tree.HasDirectory path := by
  unfold HasDirectory
  rw [get?_masked]
  cases tree.get? path <;> simp

theorem wellFormed_masked (root : Path) : (tree.masked root).WellFormed ↔ tree.WellFormed := by
  have hkeys := map_fst_masked root tree
  have hforall (p : Path → Prop) :
      (∀ e ∈ (tree.masked root).entries, p e.1) ↔ ∀ e ∈ tree.entries, p e.1 := by
    simp only [masked, List.forall_mem_map]
  constructor
  · rintro ⟨hdistinct, hnamed, hrooted⟩
    refine ⟨hkeys ▸ hdistinct, (hforall fun p => p ≠ [] ∧ Path.Plain p).mp hnamed, ?_⟩
    exact (hforall fun p => tree.HasDirectory p.dropLast).mp fun e mem =>
      hasDirectory_masked.mp (hrooted e mem)
  · rintro ⟨hdistinct, hnamed, hrooted⟩
    refine ⟨hkeys ▸ hdistinct, (hforall fun p => p ≠ [] ∧ Path.Plain p).mpr hnamed, ?_⟩
    exact (hforall fun p => (tree.masked root).HasDirectory p.dropLast).mpr fun e mem =>
      hasDirectory_masked.mpr (hrooted e mem)

/-! ### Paths -/

theorem ending_masked {entry : Option Entry} (h : Ending follow entry) :
    Ending follow (entry.map (Entry.maskedAt root path)) := by
  match entry, h with
  | none, _ => trivial
  | some (.file mode content), _ =>
      obtain ⟨seen, hseen⟩ := Entry.maskedAt_file root path mode content
      rw [Option.map_some, hseen]
      trivial
  | some (.link target), h => rwa [Option.map_some, Entry.maskedAt_link]

/-- **Where a path leads** does not depend on what files hold. -/
theorem walk_masked (root : Path) (tree : Tree) (follow : Bool) (links : Nat) (here : Path)
    (rest : List String) :
    (tree.masked root).walk follow links here rest =
      (tree.walk follow links here rest).map (Place.masked root) := by
  have hseen (path : Path) (entry : Option Entry) (h : tree.get? path = entry) :
      (tree.masked root).get? path = entry.map (Entry.maskedAt root path) := by
    rw [get?_masked, h]
  induction links, here, rest using walk_induction tree follow with
  | nil links here =>
      rw [walk_nil, walk_nil, get?_masked]
      rfl
  | dot links here others ih => rw [walk_dot, walk_dot, ih]
  | up links here others ih => rw [walk_up, walk_up, ih]
  | long links here name others hdot hup hlong =>
      rw [walk_long hdot hup hlong, walk_long hdot hup hlong]
      rfl
  | last links here name hname hend =>
      rw [walk_last hname rfl hend, walk_last hname (hseen _ _ rfl) (ending_masked hend)]
      rfl
  | missing links here name others hname hentry hmore =>
      rw [walk_missing hname hentry hmore, walk_missing hname (hseen _ _ hentry) hmore]
      rfl
  | blocked links here name others mode content hname hentry hmore =>
      obtain ⟨blank, hblank⟩ := Entry.maskedAt_file root (here ++ [name]) mode content
      have hfile := hseen _ _ hentry
      rw [Option.map_some, hblank] at hfile
      rw [walk_blocked hname hentry hmore, walk_blocked hname hfile hmore]
      rfl
  | into links here name others mode hname hentry ih =>
      have hdir := hseen _ _ hentry
      rw [Option.map_some, Entry.maskedAt_directory] at hdir
      rw [walk_into hname hentry, walk_into hname hdir, ih]
  | stuck here name others target hname hentry hmore =>
      have hlink := hseen _ _ hentry
      rw [Option.map_some, Entry.maskedAt_link] at hlink
      rw [walk_stuck hname hentry hmore, walk_stuck hname hlink hmore]
      rfl
  | link links here name others target hname hentry hmore ih =>
      have hlink := hseen _ _ hentry
      rw [Option.map_some, Entry.maskedAt_link] at hlink
      rw [walk_link hname hentry hmore, walk_link hname hlink hmore, ih]

theorem find_masked (root : Path) (tree : Tree) (follow : Bool) (text : String) :
    (tree.masked root).find follow text = (tree.find follow text).map (Place.masked root) := by
  unfold find
  split
  · rfl
  · split
    · rfl
    · split
      · rfl
      · exact walk_masked ..

theorem isThere_masked (root : Path) (tree : Tree) (text : String) :
    (tree.masked root).isThere text = tree.isThere text := by
  simp only [isThere, stat, find_masked]
  cases tree.find true text with
  | error fault => rfl
  | ok place =>
      cases h : place.entry <;> simp [Except.map, Place.masked, h, Except.isOk, Except.toBool]

theorem isDirectory_masked (root : Path) (tree : Tree) (text : String) :
    (tree.masked root).isDirectory text = tree.isDirectory text := by
  simp only [isDirectory, stat, find_masked]
  cases tree.find true text with
  | error fault => rfl
  | ok place => cases h : place.entry <;> simp [Except.map, Place.masked, h]

theorem get?_masked_eq_link_iff {target : String} :
    (tree.masked root).get? path = some (.link target) ↔ tree.get? path = some (.link target) := by
  rw [get?_masked]
  cases tree.get? path <;> simp

theorem leadsOn_masked {links : Nat} :
    (tree.masked root).LeadsOn links path ↔ tree.LeadsOn links path := by
  simp only [LeadsOn, hasDirectory_masked, get?_masked_eq_link_iff]

/-- What is looked at on the way does not depend on what files hold. -/
theorem trace_masked (root : Path) (tree : Tree) (links : Nat) (here : Path)
    (rest : List String) :
    (tree.masked root).trace links here rest = tree.trace links here rest := by
  induction links, here, rest using trace_induction tree with
  | nil links here => rw [trace_nil, trace_nil]
  | dot links here others ih => rw [trace_dot, trace_dot, ih]
  | up links here others ih => rw [trace_up, trace_up, ih]
  | long links here name others hdot hup hlong =>
      rw [trace_long hdot hup hlong, trace_long hdot hup hlong]
  | ending links here name others hname hend =>
      rw [trace_ending hname hend, trace_ending hname (leadsOn_masked.not.mpr hend)]
  | into links here name others hname hdir ih =>
      rw [trace_into hname hdir, trace_into hname (hasDirectory_masked.mpr hdir), ih]
  | link links here name others target hname hlink ih =>
      rw [trace_link hname hlink, trace_link hname (get?_masked_eq_link_iff.mpr hlink), ih]

theorem leadsFar_masked (root : Path) (tree : Tree) (text : String) :
    (tree.masked root).leadsFar text = tree.leadsFar text := by
  rw [leadsFar, leadsFar, trace_masked]
  rfl

theorem realPath_masked (root : Path) (tree : Tree) (text : String) :
    (tree.masked root).realPath text = tree.realPath text := by
  simp only [realPath, leadsFar_masked, find_masked]
  cases tree.find true text with
  | error fault => rfl
  | ok place => cases h : place.entry <;> simp [Except.map, Place.masked, h]

theorem carriedMode_masked (root : Path) (tree : Tree) (text : String) :
    (tree.masked root).carriedMode text = tree.carriedMode text := by
  simp only [carriedMode, stat, find_masked]
  cases tree.find true text with
  | error fault => rfl
  | ok place => cases h : place.entry <;> simp [Except.map, Place.masked, h]

theorem anchor_masked (root : Path) (tree : Tree) (names : List String) :
    (tree.masked root).anchor names = tree.anchor names := by
  induction names with
  | nil => rfl
  | cons name above ih => simp only [anchor, isThere_masked, ih]

/-- **A path is accepted** or not whatever files hold. -/
theorem resolve_masked (project : Project) (root : Path) (tree : Tree) (text : String) :
    project.resolve (tree.masked root) text = project.resolve tree text := by
  simp only [Project.resolve, anchor_masked, realPath_masked]

theorem exists_find_masked {real : Path} :
    (∃ entry, (tree.masked root).find follow text = .ok ⟨real, some entry⟩) ↔
      ∃ entry, tree.find follow text = .ok ⟨real, some entry⟩ := by
  rw [find_masked]
  cases tree.find follow text with
  | error fault => simp [Except.map]
  | ok place =>
      obtain ⟨path, entry⟩ := place
      cases entry <;> simp [Except.map, Place.masked]

/-- **A path strays** or not whatever files hold. -/
theorem strays_masked (project : Project) (root : Path) (tree : Tree) (text : String) :
    project.Strays (tree.masked root) text ↔ project.Strays tree text := by
  have hanchor (path up real : Path) :
      (tree.masked root).Anchor path up real ↔ tree.Anchor path up real := by
    constructor
    · rintro ⟨hup, hfound, hdeep⟩
      exact ⟨hup, exists_find_masked.mp hfound, fun other hother hthere =>
        hdeep other hother ((isThere_masked ..).trans hthere)⟩
    · rintro ⟨hup, hfound, hdeep⟩
      exact ⟨hup, exists_find_masked.mpr hfound, fun other hother hthere =>
        hdeep other hother ((isThere_masked ..).symm.trans hthere)⟩
  simp only [Project.Strays, hanchor, leadsFar_masked]

/-- What is read inside the directory is read as it is. -/
theorem readText_masked {real : Path} {entry : Entry} (hin : root <+: real)
    (h : tree.find true text = .ok ⟨real, some entry⟩) :
    (tree.masked root).readText text = tree.readText text := by
  have hseen : (tree.masked root).find true text = .ok ⟨real, some entry⟩ := by
    rw [find_masked, h]
    simp [Except.map, Place.masked, Entry.maskedAt_inside hin]
  simp only [readText, read, stat, h, hseen]

/-! ### Listings -/

theorem below_masked (root : Path) (tree : Tree) (path : Path) :
    (tree.masked root).below path =
      (tree.below path).map fun (names, entry) => (names, entry.maskedAt root (path ++ names)) := by
  simp only [below, masked, List.filterMap_map, List.map_filterMap]
  congr 1
  funext e
  obtain ⟨place, entry⟩ := e
  by_cases h : (path.isPrefixOf place && place != path) = true
  · have hplace : path ++ place.drop path.length = place := by
      obtain ⟨hbelow, -⟩ : path.isPrefixOf place = true ∧ _ := by simpa using h
      obtain ⟨rest, rfl⟩ := List.isPrefixOf_iff_prefix.mp hbelow
      simp
    simp only [Function.comp_apply, h, if_true, Option.map_some, hplace]
  · simp only [Function.comp_apply, h]
    rfl

theorem under_masked (root : Path) (tree : Tree) (directory : Path) :
    ∃ real, (tree.masked root).under directory =
      (tree.under directory).map fun (names, entry) =>
        (names, entry.maskedAt root (real ++ names)) := by
  unfold under
  rw [find_masked]
  cases tree.find true (Path.text directory) with
  | error fault => exact ⟨[], rfl⟩
  | ok place =>
      obtain ⟨real, entry⟩ := place
      refine ⟨real, ?_⟩
      match entry with
      | none => rfl
      | some (.directory mode) =>
          simp only [Except.map, Place.masked, Option.map_some, Entry.maskedAt_directory,
            below_masked, List.filter_map]
          rfl
      | some (.link target) => simp [Except.map, Place.masked]
      | some (.file mode content) =>
          obtain ⟨seen, hseen⟩ := Entry.maskedAt_file root real mode content
          simp [Except.map, Place.masked, hseen]

/-- **What a listing can show** does not depend on what files hold. -/
theorem items_masked (root : Path) (tree : Tree) (directory : Path) :
    (tree.masked root).items directory = tree.items directory := by
  obtain ⟨real, hunder⟩ := under_masked root tree directory
  simp only [items, shown, hunder, List.filter_map, List.map_map, Function.comp_def,
    Entry.isDirectory_maskedAt]

theorem levels_masked (root : Path) (tree : Tree) (below directory : Path) (count : Nat) :
    levels (tree.masked root) below directory count = levels tree below directory count := by
  unfold levels
  rw [items_masked]

theorem list_masked (root : Path) (tree : Tree) (below directory : Path) (depth : Option Nat)
    (limit : Nat) :
    list (tree.masked root) below directory depth limit =
      list tree below directory depth limit := by
  unfold list
  rw [items_masked]

/-! ### Changes -/

theorem makeDirectory_masked (root : Path) (tree : Tree) (text : String) :
    (tree.masked root).makeDirectory text = (tree.makeDirectory text).map (Tree.masked root) := by
  simp only [makeDirectory, find_masked]
  cases tree.find false text with
  | error fault => rfl
  | ok place =>
      obtain ⟨path, entry⟩ := place
      cases entry with
      | none => simp [Except.map, Place.masked, put_masked]
      | some entry => simp [Except.map, Place.masked]

theorem settle_masked (root : Path) (attempt : Except Fault Tree) (text : String) (tree : Tree) :
    makeDirectories.settle (attempt.map (Tree.masked root)) text (tree.masked root) =
      (makeDirectories.settle attempt text tree).map id (Tree.masked root) := by
  cases attempt with
  | ok made => rfl
  | error fault =>
      simp only [makeDirectories.settle, Except.map, isDirectory_masked]
      split <;> rfl

theorem makeDirectories_masked (root : Path) (tree : Tree) (names : List String) :
    (tree.masked root).makeDirectories names =
      (tree.makeDirectories names).map id (Tree.masked root) := by
  induction names with
  | nil => rfl
  | cons name above ih =>
      simp only [makeDirectories, makeDirectory_masked, ih]
      cases hmake : tree.makeDirectory (Path.text (name :: above).reverse) with
      | ok made => rfl
      | error fault =>
          by_cases hmissing : fault = .missing
          · subst hmissing
            cases hmade : tree.makeDirectories above with
            | mk outcome after =>
                cases outcome with
                | some fault => rfl
                | none =>
                    rw [← settle_masked, ← makeDirectory_masked]
                    rfl
          · cases fault <;>
              first | exact absurd rfl hmissing | exact settle_masked root (.error _) _ tree

theorem removeFile_masked (root : Path) (tree : Tree) (text : String) :
    (tree.masked root).removeFile text = (tree.removeFile text).map (Tree.masked root) := by
  simp only [removeFile, find_masked]
  cases tree.find false text with
  | error fault => rfl
  | ok place =>
      obtain ⟨path, entry⟩ := place
      cases entry with
      | none => rfl
      | some entry =>
          cases entry with
          | directory mode => simp [Except.map, Place.masked]
          | link target => simp [Except.map, Place.masked, erase_masked]
          | file mode content =>
              obtain ⟨seen, hseen⟩ := Entry.maskedAt_file root path mode content
              simp [Except.map, Place.masked, hseen, erase_masked]

theorem freeName_masked (root : Path) (tree : Tree) (name : String) :
    (tree.masked root).freeName name = tree.freeName name := by
  simp only [freeName, masked, List.filterMap_map, List.length_map, Function.comp_def]

theorem temporary_masked (root : Path) (tree : Tree) (path : Path) :
    (tree.masked root).temporary path = tree.temporary path :=
  freeName_masked ..

theorem write_masked (root : Path) (tree : Tree) (text : String) (content : Content) :
    ((tree.masked root).write text content).map (Tree.masked root) =
      (tree.write text content).map (Tree.masked root) := by
  simp only [write, find_masked]
  cases tree.find true text with
  | error fault => rfl
  | ok place =>
      obtain ⟨path, entry⟩ := place
      match entry with
      | none => simp [Except.map, Place.masked, masked_put_masked]
      | some (.directory mode) => simp [Except.map, Place.masked]
      | some (.link target) => simp [Except.map, Place.masked]
      | some (.file mode old) =>
          obtain ⟨seen, hseen⟩ := Entry.maskedAt_file root path mode old
          simp [Except.map, Place.masked, hseen, masked_put_masked]

theorem Written.masked {name : String} {base : Path} (hw : tree.Written path name base) :
    (tree.masked root).Written path name base where
  found := by
    obtain ⟨mode, hfind⟩ := hw.found
    exact ⟨mode, by simp [find_masked, hfind, Except.map, Place.masked]⟩
  fits := hw.fits
  plain := hw.plain
  short := hw.short

/-- **Rewriting a file** does the same to the masked tree, as far as the mask shows. -/
theorem rewrite_masked (hwf : tree.WellFormed) (hplain : Path.Plain path) (root : Path)
    (s : String) :
    ((tree.masked root).rewrite path s).map id (Tree.masked root) =
      (tree.rewrite path s).map id (Tree.masked root) := by
  have htemporary := temporary_masked root tree path
  have hwrite := write_masked root tree
    (Path.text (path.dropLast ++ [tree.temporary path])) (.text s)
  cases h : tree.write (Path.text (path.dropLast ++ [tree.temporary path])) (.text s) with
  | error fault =>
      have hfail : (tree.masked root).write
          (Path.text (path.dropLast ++ [tree.temporary path])) (.text s) = .error fault := by
        rw [h] at hwrite
        cases hw : (tree.masked root).write
            (Path.text (path.dropLast ++ [tree.temporary path])) (.text s) with
        | error other => simpa [hw, Except.map] using hwrite
        | ok after => simp [hw, Except.map] at hwrite
      simp only [rewrite, htemporary, h, hfail]
      simp
  | ok after =>
      obtain ⟨base, hw⟩ := exists_written hwf (plain_temporary hplain) (get?_temporary tree path) h
      have hseen := rewrite_eq (s := s) ((wellFormed_masked root).mpr hwf) hplain
        (htemporary.symm ▸ hw.masked : (tree.masked root).Written _ _ base)
      have hreal := rewrite_eq (s := s) hwf hplain hw
      simp only [carriedMode_masked, htemporary] at hseen hreal
      generalize tree.carriedMode (Path.text path) = mode at hseen hreal
      generalize base ++ [tree.temporary path] = free at hseen hreal
      -- The directory that may be in the way is looked for beside the new file.
      have hfind := congrArg (Tree.find · false (Path.text path))
        (masked_put_masked root tree free (.file mode (.text s)))
      simp only [find_masked] at hfind
      rw [hseen, hreal]
      cases hm :
          ((tree.masked root).put free (.file mode (.text s))).find false (Path.text path) <;>
        cases hr : (tree.put free (.file mode (.text s))).find false (Path.text path) <;>
        simp only [hm, hr, Except.map, Except.error.injEq, reduceCtorEq] at hfind
      · simp [hfind]
      · next seen real =>
          have hsame : seen.masked root = real.masked root := by simpa using hfind
          have hpath : seen.path = real.path := by
            simpa [Place.masked] using congrArg Place.path hsame
          have hdir := congrArg (fun place => place.entry.any Entry.isDirectory) hsame
          simp only [Place.any_isDirectory_masked] at hdir
          simp only [hpath, hdir]
          split
          · simp
          · simp [masked_put_masked]

end Tree

end Workbench.Files
