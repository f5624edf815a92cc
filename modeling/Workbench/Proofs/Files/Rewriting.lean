/-
# Rewriting a file

A file is rewritten in steps: a temporary file is written beside it, gets its
permissions, and is moved there. All of them together do one thing or nothing.

* `Tree.rewrite_cases` — **rewriting puts a file in one place or changes nothing**:
  either it fails and the tree is the one before, or it puts the new text where the
  last name of the path stands, without following a link there.
* `Tree.rewrite_direct` — a file in a directory can be rewritten if the names on the
  way and the temporary one are short enough.
-/

import Workbench.Proofs.Attempt
import Workbench.Proofs.Files.Temporary
import Workbench.Proofs.Files.Walk

namespace Workbench.Files.Tree

variable {tree : Tree} {path base : Path} {name text : String} {entry : Entry} {mode : Nat}
  {content : Content}

/-! ### Accesses to one place -/

theorem entry_isFile (mode : Nat) (content : Content) :
    (Entry.file mode content).isFile = true := rfl

theorem stat_eq_ok_iff :
    tree.stat text = .ok entry ↔ ∃ path, tree.find true text = .ok ⟨path, some entry⟩ := by
  unfold stat
  cases h : tree.find true text with
  | error fault => simp
  | ok place =>
      obtain ⟨path, found⟩ := place
      cases found <;> simp

theorem readText_eq_ok_iff {s : String} :
    tree.readText text = .ok s ↔
      ∃ path mode, tree.find true text = .ok ⟨path, some (.file mode (.text s))⟩ := by
  simp only [readText, read, Attempt.bind_eq_ok_iff, stat_eq_ok_iff]
  constructor
  · rintro ⟨content, ⟨entry, ⟨path, hfind⟩, hentry⟩, hcontent⟩
    match entry, hentry with
    | .file mode found, hentry =>
        obtain rfl : found = content := by simpa using hentry
        match found, hcontent with
        | .text s', hcontent =>
            obtain rfl : s' = s := by simpa using hcontent
            exact ⟨path, mode, hfind⟩
  · rintro ⟨path, mode, hfind⟩
    exact ⟨.text s, ⟨_, ⟨path, hfind⟩, rfl⟩, rfl⟩

theorem isDirectory_iff :
    tree.isDirectory text = true ↔
      ∃ path mode, tree.find true text = .ok ⟨path, some (.directory mode)⟩ := by
  unfold isDirectory
  cases h : tree.stat text with
  | error fault =>
      have : ∀ path entry, tree.find true text ≠ .ok ⟨path, some entry⟩ := by
        intro path entry hfind
        simp [stat_eq_ok_iff.mpr ⟨path, hfind⟩] at h
      simp [this]
  | ok entry =>
      obtain ⟨path, hfind⟩ := stat_eq_ok_iff.mp h
      cases entry <;> simp [hfind, Entry.isDirectory]

theorem isThere_iff :
    tree.isThere text = true ↔ ∃ path entry, tree.find true text = .ok ⟨path, some entry⟩ := by
  unfold isThere
  constructor
  · intro h
    cases hstat : tree.stat text with
    | error fault => simp [hstat, Except.isOk, Except.toBool] at h
    | ok entry =>
        obtain ⟨path, hfind⟩ := stat_eq_ok_iff.mp hstat
        exact ⟨path, entry, hfind⟩
  · rintro ⟨path, entry, hfind⟩
    simp [stat_eq_ok_iff.mpr ⟨path, hfind⟩, Except.isOk, Except.toBool]

theorem write_eq_ok_iff {after : Tree} :
    tree.write text content = .ok after ↔
      (∃ path mode old, tree.find true text = .ok ⟨path, some (.file mode old)⟩ ∧
        after = tree.put path (.file mode content)) ∨
      (∃ path, tree.find true text = .ok ⟨path, none⟩ ∧
        after = tree.put path (.file fileMode content)) := by
  unfold write
  cases h : tree.find true text with
  | error fault => simp
  | ok place =>
      obtain ⟨path, found⟩ := place
      match found with
      | none => simpa using eq_comm
      | some (.file mode old) => simpa using eq_comm
      | some (.directory mode) => simp
      | some (.link target) => simp

theorem removeFile_eq_ok_iff {after : Tree} :
    tree.removeFile text = .ok after ↔
      ∃ path entry, tree.find false text = .ok ⟨path, some entry⟩ ∧ entry.isDirectory = false ∧
        after = tree.erase path := by
  unfold removeFile
  cases h : tree.find false text with
  | error fault => simp
  | ok place =>
      obtain ⟨path, found⟩ := place
      match found with
      | none => simp
      | some (.file _ _) => simpa [Entry.isDirectory] using eq_comm
      | some (.directory _) => simp [Entry.isDirectory]
      | some (.link _) => simpa [Entry.isDirectory] using eq_comm

/-- The permissions that a file gets when it takes the place of another, if there is one. -/
def carriedMode (tree : Tree) (text : String) : Nat :=
  match tree.stat text with
  | .ok entry => entry.mode
  | .error _ => fileMode

/-! ### The temporary file -/

/-- What is known when the temporary file of a place has been written: it is new, and
lies in the directory to which the path of that place leads. -/
structure Written (tree : Tree) (dir : Path) (name : String) (base : Path) : Prop where
  found : ∃ mode, tree.find true (Path.text dir) = .ok ⟨base, some (.directory mode)⟩
  fits : Path.Fits (dir ++ [name])
  plain : Path.Plain (dir ++ [name])
  short : name.utf8ByteSize ≤ Path.nameLimit

/-- A free name that can be written to lies in the directory to which the path leads. -/
theorem exists_written (hwf : tree.WellFormed) (hplain : Path.Plain (path ++ [name]))
    (hfree : ∀ dir, tree.get? (dir ++ [name]) = none) {after : Tree}
    (h : tree.write (Path.text (path ++ [name])) content = .ok after) :
    ∃ base, tree.Written path name base := by
  have hfind : ∃ place, tree.find true (Path.text (path ++ [name])) = .ok place := by
    rcases write_eq_ok_iff.mp h with ⟨_, _, _, hfind, -⟩ | ⟨_, hfind, -⟩
    · exact ⟨_, hfind⟩
    · exact ⟨_, hfind⟩
  obtain ⟨place, hfind⟩ := hfind
  obtain ⟨base, mode, hdir, hshort, rfl⟩ := exists_of_find_concat hwf hplain
    (fun _ above _ target h => by simp [hfree above.path] at h) hfind
  exact ⟨base, ⟨mode, hdir⟩, fits_of_find hfind, hplain, hshort⟩

namespace Written

theorem hasDirectory (hw : tree.Written path name base) : tree.HasDirectory base := by
  obtain ⟨mode, hfind⟩ := hw.found
  have hplain := (Path.plain_append.mp hw.plain).1
  exact hasDirectory_iff.mpr ⟨mode, (leads_of_find hplain hfind).entry_eq⟩

theorem wellFormed (hw : tree.Written path name base) (hwf : tree.WellFormed)
    (hfree : tree.get? (base ++ [name]) = none) (entry : Entry) :
    (tree.put (base ++ [name]) entry).WellFormed := by
  obtain ⟨mode, hmode⟩ := hasDirectory_iff.mp hw.hasDirectory
  refine hwf.put (by simp) ?_ (by simpa using hw.hasDirectory) ?_
  · exact Path.plain_append.mpr ⟨hwf.plain hmode, (Path.plain_append.mp hw.plain).2⟩
  · simp [HasDirectory, hfree]

theorem find_eq (hw : tree.Written path name base) (hwf : tree.WellFormed)
    (hfree : ∀ dir, tree.get? (dir ++ [name]) = none) (follow : Bool) :
    tree.find follow (Path.text (path ++ [name])) = .ok ⟨base ++ [name], none⟩ := by
  obtain ⟨mode, hfind⟩ := hw.found
  rw [find_concat hwf hw.plain hw.fits fun _ above _ target h => by simp [hfree above.path] at h,
    hfind]
  show tree.enter name ⟨base, some (.directory mode)⟩ = _
  exact enter_eq_ok_iff.mpr ⟨⟨mode, rfl⟩, hw.short, by rw [hfree base]⟩

theorem write_eq (hw : tree.Written path name base) (hwf : tree.WellFormed)
    (hfree : ∀ dir, tree.get? (dir ++ [name]) = none) (content : Content) :
    tree.write (Path.text (path ++ [name])) content =
      .ok (tree.put (base ++ [name]) (.file fileMode content)) :=
  write_eq_ok_iff.mpr (.inr ⟨_, hw.find_eq hwf hfree true, rfl⟩)

end Written

/-! ### Beside the temporary file -/

section Beside

variable {free : Path} (hfree : tree.get? free = none)

include hfree

theorem find_put_free {follow : Bool} {place : Place} (hplain : Path.Plain path)
    (h : tree.find follow (Path.text path) = .ok place) (hentry : entry.isFile = true) :
    (tree.put free entry).find follow (Path.text path) =
      .ok ⟨place.path, (tree.put free entry).get? place.path⟩ := by
  refine ((leads_of_find hplain h).put (ne_nil_of_get?_eq_none hfree) ?_ ?_).find_eq hplain
    (fits_of_find h)
  · simp [hfree]
  · rintro target rfl
    simp [Entry.isFile] at hentry

theorem find_of_put_free {follow : Bool} {place : Place} (hplain : Path.Plain path)
    (hentry : entry.isFile = true)
    (h : (tree.put free entry).find follow (Path.text path) = .ok place) :
    place.path = free ∨ tree.find follow (Path.text path) = .ok place :=
  ((leads_of_find hplain h).of_put (ne_nil_of_get?_eq_none hfree) hentry).imp_right fun leads =>
    leads.find_eq hplain (fits_of_find h)

/-- A new file gets the permissions that the file at another path had before it was made. -/
theorem carryMode_put {source : Path} (hplain : Path.Plain source)
    (hself : (tree.put free (.file fileMode content)).find true text =
      .ok ⟨free, some (.file fileMode content)⟩) :
    (tree.put free (.file fileMode content)).carryMode (Path.text source) text =
      tree.put free (.file (tree.carriedMode (Path.text source)) content) := by
  have hset (mode : Nat) : (tree.put free (.file fileMode content)).setMode text mode =
      .ok (tree.put free (.file mode content)) := by
    simp [setMode, hself, put_put]
  unfold carryMode carriedMode
  cases hold : tree.stat (Path.text source) with
  | ok entry =>
      obtain ⟨path, hfind⟩ := stat_eq_ok_iff.mp hold
      have hentry := (leads_of_find hplain hfind).entry_eq
      have hne : path ≠ free := by
        rintro rfl
        simp [hfree] at hentry
      have hnew := find_put_free hfree hplain hfind (entry_isFile fileMode content)
      rw [get?_put_of_ne tree hne, hentry] at hnew
      simp [stat_eq_ok_iff.mpr ⟨path, hnew⟩, hset, Except.toOption]
  | error fault =>
      cases hnew : (tree.put free (.file fileMode content)).stat (Path.text source) with
      | error fault => rfl
      | ok entry =>
          -- The path now leads to the new file itself, through a link that led nowhere.
          obtain ⟨path, hfind⟩ := stat_eq_ok_iff.mp hnew
          rcases find_of_put_free hfree hplain rfl hfind with hpath | hbefore
          · obtain rfl : path = free := hpath
            have hentry := (leads_of_find hplain hfind).entry_eq
            rw [get?_put_self tree (ne_nil_of_get?_eq_none hfree)] at hentry
            obtain rfl : Entry.file fileMode content = entry := by simpa using hentry
            simp [hset, Entry.mode, Except.toOption]
          · simp [stat_eq_ok_iff.mpr ⟨path, hbefore⟩] at hold

/-- Moving the new file to another place puts it there, unless a directory is there. -/
theorem rename_put {target : String} {mode : Nat} {place : Place}
    (hself : (tree.put free (.file mode content)).find false text =
      .ok ⟨free, some (.file mode content)⟩)
    (htarget : (tree.put free (.file mode content)).find false target = .ok place)
    (hne : place.path ≠ free) :
    (tree.put free (.file mode content)).rename text target =
      match place.entry with
      | some (.directory _) => .error .isDirectory
      | _ => .ok (tree.put place.path (.file mode content)) := by
  obtain ⟨path, entry⟩ := place
  simp only [rename, hself, htarget, Attempt.ok_bind, Attempt.pure_eq, if_neg (Ne.symm hne),
    erase_put hfree]
  match entry with
  | none => rfl
  | some (.file _ _) => rfl
  | some (.directory _) => rfl
  | some (.link _) => rfl

theorem removeFile_put {mode : Nat}
    (hself : (tree.put free (.file mode content)).find false text =
      .ok ⟨free, some (.file mode content)⟩) :
    (tree.put free (.file mode content)).removeFile text = .ok tree := by
  simp [removeFile, hself, erase_put hfree]

end Beside

/-! ### All steps together -/

theorem plain_temporary (hplain : Path.Plain path) :
    Path.Plain (path.dropLast ++ [tree.temporary path]) :=
  Path.plain_append.mpr ⟨hplain.dropLast, Path.plain_singleton.mpr (isName_temporary hplain tree)⟩

/-- Whatever the path of a file leads to, it is not the temporary file beside it. -/
theorem path_ne_temporary (other : Tree) (base : Path) (hwf : tree.WellFormed)
    (hplain : Path.Plain path) {place : Place} (h : tree.find false (Path.text path) = .ok place) :
    place.path ≠ base ++ [other.temporary path] := by
  rcases List.eq_nil_or_concat' path with rfl | ⟨dir, name, rfl⟩
  · obtain rfl : place = ⟨[], tree.get? []⟩ := by
      simpa using find_direct Path.plain_nil (fun via target hvia => by
        simp [List.prefix_nil.mp hvia]) h
    simp
  · obtain ⟨dir', _, _, _, rfl⟩ := exists_of_find_concat hwf hplain (by simp) h
    obtain ⟨n, -, hname⟩ := temporary_eq other (dir ++ [name])
    intro heq
    have hsame : name = other.temporary (dir ++ [name]) := by
      simpa using (List.append_inj' heq rfl).2
    rw [hname, List.getLast?_concat, Option.getD_some] at hsame
    exact temporaryName_ne name n hsame.symm

/-- The new file is found at the path under which it was made. -/
theorem Written.find_put (hw : tree.Written path name base) (hwf : tree.WellFormed)
    (hfree : ∀ dir, tree.get? (dir ++ [name]) = none) (mode : Nat) (content : Content)
    (follow : Bool) :
    (tree.put (base ++ [name]) (.file mode content)).find follow (Path.text (path ++ [name])) =
      .ok ⟨base ++ [name], some (.file mode content)⟩ := by
  rw [find_put_free (hfree base) hw.plain (hw.find_eq hwf hfree follow)
    (entry_isFile mode content), get?_put_self tree (by simp)]

section Steps

variable {s : String} (hwf : tree.WellFormed) (hplain : Path.Plain path)
  (hw : tree.Written path.dropLast (tree.temporary path) base)

include hwf hplain hw

/-- When the temporary file has been written, it is moved to where it is wanted or removed. -/
theorem rewrite_eq :
    let free := base ++ [tree.temporary path]
    let ready := tree.put free (.file (tree.carriedMode (Path.text path)) (.text s))
    tree.rewrite path s =
      match ready.find false (Path.text path) with
      | .error fault => (some fault, tree)
      | .ok place =>
          if place.entry.any Entry.isDirectory then (some .isDirectory, tree)
          else
            (none, tree.put place.path (.file (tree.carriedMode (Path.text path)) (.text s))) := by
  intro free ready
  have hfree := get?_temporary tree path
  have hself := hw.find_put hwf hfree (tree.carriedMode (Path.text path)) (.text s) false
  have hready : (tree.put free (.file fileMode (.text s))).carryMode (Path.text path)
      (Path.text (path.dropLast ++ [tree.temporary path])) = ready :=
    carryMode_put (hfree base) hplain (hw.find_put hwf hfree fileMode (.text s) true)
  have hremove := removeFile_put (hfree base) hself
  unfold rewrite
  simp only [hw.write_eq hwf hfree]
  rw [hready]
  cases hfind : ready.find false (Path.text path) with
  | error fault =>
      have hrename : ready.rename (Path.text
          (path.dropLast ++ [tree.temporary path])) (Path.text path) =
          .error fault := by
        simp only [rename, hself, hfind, ready, free, Attempt.ok_bind, Attempt.error_bind]
      simp only [hrename, hremove, ready, free]
      rfl
  | ok place =>
      have hne := path_ne_temporary tree base (hw.wellFormed hwf (hfree base) _) hplain hfind
      have hrename := rename_put (hfree base) hself hfind hne
      obtain ⟨target, entry⟩ := place
      match entry with
      | some (.directory _) =>
          simp only [hrename, hremove, ready, free]
          rfl
      | none =>
          simp only [hrename, ready, free]
          rfl
      | some (.file _ _) =>
          simp only [hrename, ready, free]
          rfl
      | some (.link _) =>
          simp only [hrename, ready, free]
          rfl

end Steps

/-- **Rewriting puts a file in one place or changes nothing.** The place is where the
last name of the path stands, and a link there is not followed. -/
theorem rewrite_cases (hwf : tree.WellFormed) (hplain : Path.Plain path) (s : String) :
    (∃ fault, tree.rewrite path s = (some fault, tree)) ∨
    ∃ base place, tree.Written path.dropLast (tree.temporary path) base ∧
      tree.find false (Path.text path) = .ok place ∧ ¬ tree.HasDirectory place.path ∧
      tree.rewrite path s =
        (none, tree.put place.path (.file (tree.carriedMode (Path.text path)) (.text s))) := by
  cases hwrite : tree.write (Path.text (path.dropLast ++ [tree.temporary path])) (.text s) with
  | error fault => exact .inl ⟨fault, by simp [rewrite, hwrite]⟩
  | ok after =>
      have hfree := get?_temporary tree path
      obtain ⟨base, hw⟩ := exists_written hwf (plain_temporary hplain) hfree hwrite
      have hrewrite := rewrite_eq (s := s) hwf hplain hw
      simp only at hrewrite
      split at hrewrite
      · exact .inl ⟨_, hrewrite⟩
      · next place hfind =>
          split at hrewrite
          · exact .inl ⟨_, hrewrite⟩
          next hnodir =>
          have hne := path_ne_temporary tree base (hw.wellFormed hwf (hfree base) _) hplain hfind
          have hbefore := (find_of_put_free (hfree base) hplain rfl hfind).resolve_left hne
          refine .inr ⟨base, place, hw, hbefore, ?_, hrewrite⟩
          intro hdir
          obtain ⟨mode, hmode⟩ := hasDirectory_iff.mp hdir
          rw [(leads_of_find hplain hbefore).entry_eq] at hmode
          simp [hmode, Entry.isDirectory] at hnodir

/-! ### Files in a directory -/

/-- The names on the way to a place, and that of a temporary file there, are within the
limits of names and written paths. -/
structure Rewritable (path : Path) : Prop where
  ne_nil : path ≠ []
  plain : Path.Plain path
  fits : Path.Fits (path.dropLast ++ [temporaryName (path.getLast?.getD "") 0])
  short : ∀ name ∈ path, name.utf8ByteSize ≤ Path.nameLimit
  shortTemporary : (temporaryName (path.getLast?.getD "") 0).utf8ByteSize ≤ Path.nameLimit

theorem rewritable_of_written (hplain : Path.Plain path) (hne : path ≠ []) {place : Place}
    (hw : tree.Written path.dropLast (tree.temporary path) base)
    (hfind : tree.find false (Path.text path) = .ok place) : Rewritable path := by
  obtain ⟨n, -, hname⟩ := temporary_eq tree path
  obtain ⟨-, hfits, -, hshort⟩ := hw
  rw [hname] at hfits hshort
  have hle : (temporaryName (path.getLast?.getD "") 0).utf8ByteSize ≤
      (temporaryName (path.getLast?.getD "") n).utf8ByteSize := by
    have hzero := length_tag (n := 0) (by decide)
    have hn := length_tag_ge n
    rw [utf8ByteSize_temporaryName, utf8ByteSize_temporaryName]
    omega
  refine ⟨hne, hplain, hfits.concat_of_le ?_ hle, (leads_of_find hplain hfind).short,
    hle.trans hshort⟩
  rw [zero_mem_temporaryName]
  exact fun mem => hfits.not_mem_concat (zero_mem_temporaryName.mpr mem)

namespace Rewritable

theorem concat (hr : Rewritable path) : path = path.dropLast ++ [path.getLast?.getD ""] := by
  conv => lhs; rw [← List.dropLast_append_getLast hr.ne_nil]
  rw [List.getLast?_eq_getLast_of_ne_nil hr.ne_nil, Option.getD_some]

theorem fits_path (hr : Rewritable path) : path.Fits := by
  rw [hr.concat]
  refine hr.fits.concat_of_le ?_ ?_
  · exact fun mem => hr.fits.not_mem_concat (zero_mem_temporaryName.mpr mem)
  · rw [utf8ByteSize_temporaryName]
    omega

end Rewritable

/-- The temporary file is written in the directory to which the path leads. -/
theorem Rewritable.written_in (hr : Rewritable path) (hroom : tree.entries.length < 16 ^ 32)
    (hdir : tree.find true (Path.text path.dropLast) = .ok ⟨base, some (.directory mode)⟩) :
    tree.Written path.dropLast (tree.temporary path) base := by
  obtain ⟨n, hn, hname⟩ := temporary_eq tree path
  have hsize : (tree.temporary path).utf8ByteSize =
      (temporaryName (path.getLast?.getD "") 0).utf8ByteSize := by
    rw [hname, utf8ByteSize_temporaryName, utf8ByteSize_temporaryName,
      length_tag (by omega : n < 16 ^ 32), length_tag (by decide : 0 < 16 ^ 32)]
  refine ⟨⟨mode, hdir⟩, hr.fits.concat_of_le ?_ hsize.le, plain_temporary hr.plain,
    hsize.trans_le hr.shortTemporary⟩
  rw [hname, zero_mem_temporaryName]
  exact fun mem => hr.fits.not_mem_concat (zero_mem_temporaryName.mpr mem)

section Direct

variable (hwf : tree.WellFormed) (hr : Rewritable path)
  (hparent : tree.HasDirectory path.dropLast)

include hwf hr hparent

/-- A place where a file can be rewritten is found where it is. -/
theorem Rewritable.find_eq (follow : Bool)
    (hend : ∀ target, tree.get? path = some (.link target) → follow = false) :
    tree.find follow (Path.text path) = .ok ⟨path, tree.get? path⟩ :=
  find_of_parent hwf hr.plain hr.fits_path hr.short hparent hend

theorem Rewritable.written (hroom : tree.entries.length < 16 ^ 32) :
    tree.Written path.dropLast (tree.temporary path) path.dropLast := by
  obtain ⟨mode, hmode⟩ := hasDirectory_iff.mp hparent
  have hdir : tree.find true (Path.text path.dropLast) =
      .ok ⟨path.dropLast, tree.get? path.dropLast⟩ :=
    find_of_parent hwf hr.plain.dropLast hr.fits.of_concat
      (fun name mem => hr.short name (List.dropLast_subset path mem)) (hwf.parent hmode)
      (by simp [hmode])
  rw [hmode] at hdir
  exact hr.written_in hroom hdir

/-- A file in a directory is rewritten where it is. -/
theorem Rewritable.rewrite_eq (hroom : tree.entries.length < 16 ^ 32)
    (hno : ¬ tree.HasDirectory path) (s : String) :
    tree.rewrite path s =
      (none, tree.put path (.file (tree.carriedMode (Path.text path)) (.text s))) := by
  have hw := hr.written hwf hparent hroom
  have hfree := get?_temporary tree path
  have found := hr.find_eq hwf hparent
  have hfind := find_put_free (hfree path.dropLast) hr.plain
    (found false (by simp)) (entry_isFile (tree.carriedMode (Path.text path)) (.text s))
  have hne : path ≠ path.dropLast ++ [tree.temporary path] :=
    path_ne_temporary tree path.dropLast hwf hr.plain (found false (by simp))
  rw [get?_put_of_ne tree hne] at hfind
  have hrewrite := Tree.rewrite_eq (s := s) hwf hr.plain hw
  simp only [hfind] at hrewrite
  rw [hrewrite]
  match h : tree.get? path with
  | some (.directory mode) => exact absurd (hasDirectory_iff.mpr ⟨mode, h⟩) hno
  | none => rfl
  | some (.file _ _) => rfl
  | some (.link _) => rfl

/-- The file that takes the place of another gets its permissions. -/
theorem Rewritable.carriedMode_eq (hno : ∀ target, tree.get? path ≠ some (.link target)) :
    tree.carriedMode (Path.text path) = ((tree.get? path).map Entry.mode).getD fileMode := by
  have hfind := hr.find_eq hwf hparent true fun target h => absurd h (hno target)
  cases h : tree.get? path with
  | none => simp [carriedMode, stat, hfind, h]
  | some entry => simp [carriedMode, stat_eq_ok_iff.mpr ⟨path, h ▸ hfind⟩]

end Direct

end Workbench.Files.Tree
