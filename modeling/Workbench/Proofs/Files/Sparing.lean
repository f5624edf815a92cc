/-
# Room for a temporary name

A file is rewritten through a temporary file beside it, whose name is that of the file with a
tag around it. So the name of the file, and its written path, must be shorter than the limits
that hold for them by as much as the temporary name is longer: a file can be there, and be
read, without there being room for the name through which it would be rewritten.

* `Path.HasSpare` — there is room for the temporary name of a place.
* `Tree.rewrite_concat` — **a file in a directory is rewritten exactly when there is room**.
-/

import Workbench.Proofs.Files.Directories

namespace Workbench.Files

/-- By how many bytes the name of a temporary file is longer than that of its file. -/
def Path.spare : Nat := 38

/-- A name as much longer than the last one is within the limits, by itself and in the written
path. -/
def Path.HasSpare (path : Path) : Prop :=
  (path.getLast?.getD "").utf8ByteSize + spare ≤ nameLimit ∧
    (text path).utf8ByteSize + spare ≤ textLimit

instance (path : Path) : Decidable path.HasSpare :=
  inferInstanceAs (Decidable (_ ∧ _))

theorem Path.hasSpare_concat {dir : Path} {name : String} :
    Path.HasSpare (dir ++ [name]) ↔ name.utf8ByteSize + spare ≤ nameLimit ∧
      (Path.text (dir ++ [name])).utf8ByteSize + spare ≤ textLimit := by
  rw [HasSpare, List.getLast?_concat, Option.getD_some]

/-- With another name at its end a written path is as much longer as the name is. -/
theorem Path.utf8ByteSize_text_concat (dir : Path) (name other : String) :
    (Path.text (dir ++ [other])).utf8ByteSize + name.utf8ByteSize =
      (Path.text (dir ++ [name])).utf8ByteSize + other.utf8ByteSize := by
  rw [Path.text_concat, Path.text_concat]
  by_cases hnil : dir = []
  · rw [if_pos hnil, if_pos hnil, String.utf8ByteSize_append, String.utf8ByteSize_append]
    omega
  · rw [if_neg hnil, if_neg hnil]
    simp only [String.utf8ByteSize_append]
    omega

/-- A zero byte in a written path stands in one of its names. -/
theorem Path.zero_not_mem_concat {dir : Path} {name : String} (hdir : dir.Fits)
    (hname : '\x00' ∉ name.toList) : '\x00' ∉ (Path.text (dir ++ [name])).toList := by
  obtain ⟨hzero, -⟩ := hdir
  rw [Path.text_concat]
  split <;> simp [hzero, hname]

namespace Tree

variable {tree : Tree} {dir base : Path} {name : String} {mode : Nat}

theorem utf8ByteSize_temporary (hroom : tree.entries.length < 16 ^ 32) (dir : Path)
    (name : String) :
    (tree.temporary (dir ++ [name])).utf8ByteSize = name.utf8ByteSize + Path.spare := by
  obtain ⟨n, hn, hname⟩ := temporary_eq tree (dir ++ [name])
  rw [List.getLast?_concat, Option.getD_some] at hname
  rw [hname, utf8ByteSize_temporaryName, length_tag (by omega : n < 16 ^ 32), Path.spare]

section Concat

variable (hwf : tree.WellFormed) (hplain : Path.Plain (dir ++ [name])) (hfits : dir.Fits)
  (hzero : '\x00' ∉ name.toList) (hroom : tree.entries.length < 16 ^ 32)

include hplain hfits hzero

theorem rewritable_of_hasSpare
    (hshort : ∀ other ∈ dir ++ [name], other.utf8ByteSize ≤ Path.nameLimit)
    (hspare : Path.HasSpare (dir ++ [name])) : Rewritable (dir ++ [name]) := by
  obtain ⟨hname, htext⟩ := Path.hasSpare_concat.mp hspare
  have hsize : (temporaryName name 0).utf8ByteSize = name.utf8ByteSize + Path.spare := by
    rw [utf8ByteSize_temporaryName, length_tag (by decide : 0 < 16 ^ 32), Path.spare]
  have hlonger := Path.utf8ByteSize_text_concat dir name (temporaryName name 0)
  refine ⟨by simp, hplain, ?_, hshort, ?_⟩
  · rw [List.dropLast_concat, List.getLast?_concat, Option.getD_some]
    refine ⟨?_, by omega⟩
    exact Path.zero_not_mem_concat hfits fun mem => hzero (zero_mem_temporaryName.mp mem)
  · rw [List.getLast?_concat, Option.getD_some]
    omega

include hwf hroom

/-- Without room the temporary file is refused, and nothing is changed. -/
theorem rewrite_of_not_hasSpare
    (hdir : tree.find true (Path.text dir) = .ok ⟨base, some (.directory mode)⟩)
    (hno : ¬ Path.HasSpare (dir ++ [name])) (s : String) :
    tree.rewrite (dir ++ [name]) s = (some .nameTooLong, tree) := by
  have hsize := utf8ByteSize_temporary hroom dir name
  have hlonger := Path.utf8ByteSize_text_concat dir name (tree.temporary (dir ++ [name]))
  have hplainTemporary : Path.Plain (dir ++ [tree.temporary (dir ++ [name])]) := by
    have h : Path.Plain ((dir ++ [name]).dropLast ++ [tree.temporary (dir ++ [name])]) :=
      plain_temporary hplain
    rwa [List.dropLast_concat] at h
  have hzeroTemporary : '\x00' ∉ (tree.temporary (dir ++ [name])).toList := by
    obtain ⟨n, -, hname⟩ := temporary_eq tree (dir ++ [name])
    rw [List.getLast?_concat, Option.getD_some] at hname
    rw [hname]
    exact fun mem => hzero (zero_mem_temporaryName.mp mem)
  have habsent := Path.zero_not_mem_concat hfits hzeroTemporary
  have hfind : tree.find true (Path.text (dir ++ [tree.temporary (dir ++ [name])])) =
      .error .nameTooLong := by
    by_cases hfitsTemporary : Path.Fits (dir ++ [tree.temporary (dir ++ [name])])
    · -- the written path is short enough, so the name is too long
      have hlong : Path.nameLimit < (tree.temporary (dir ++ [name])).utf8ByteSize := by
        by_contra hle
        obtain ⟨-, htext⟩ := hfitsTemporary
        exact hno (Path.hasSpare_concat.mpr ⟨by omega, by omega⟩)
      rw [find_concat hwf hplainTemporary hfitsTemporary, hdir]
      · show tree.enter _ ⟨base, some (.directory mode)⟩ = _
        rw [enter, if_pos hlong]
      · intro _ place _ target hlink
        simp [get?_temporary tree (dir ++ [name]) place.path] at hlink
    · have hlong : Path.textLimit <
          (Path.text (dir ++ [tree.temporary (dir ++ [name])])).utf8ByteSize := by
        by_contra hle
        exact hfitsTemporary ⟨habsent, by omega⟩
      rw [find, if_neg (by simpa using habsent), if_neg (Path.text_ne_empty _), if_pos hlong]
  rw [rewrite, List.dropLast_concat]
  simp only [write, hfind, Attempt.error_bind]

/-- **A file in a directory is rewritten exactly when there is room** for the name of the
temporary file. -/
theorem rewrite_concat (hshort : ∀ other ∈ dir ++ [name], other.utf8ByteSize ≤ Path.nameLimit)
    (hparent : tree.HasDirectory dir) (hno : ¬ tree.HasDirectory (dir ++ [name]))
    (hlink : ∀ target, tree.get? (dir ++ [name]) ≠ some (.link target)) (s : String) :
    tree.rewrite (dir ++ [name]) s =
      if Path.HasSpare (dir ++ [name]) then
        (none, tree.put (dir ++ [name])
          (.file (((tree.get? (dir ++ [name])).map Entry.mode).getD fileMode) (.text s)))
      else (some .nameTooLong, tree) := by
  obtain ⟨hplainDir, -⟩ := Path.plain_append.mp hplain
  have habove : tree.HasDirectory (dir ++ [name]).dropLast := by
    rw [List.dropLast_concat]
    exact hparent
  split
  · next hspare =>
      have hr := rewritable_of_hasSpare hplain hfits hzero hshort hspare
      rw [hr.rewrite_eq hwf habove hroom hno, hr.carriedMode_eq hwf habove hlink]
  · next hspare =>
      obtain ⟨mode, hmode⟩ := hasDirectory_iff.mp hparent
      have hdir : tree.find true (Path.text dir) = .ok ⟨dir, tree.get? dir⟩ :=
        find_of_parent hwf hplainDir hfits
          (fun other mem => hshort other (List.mem_append_left _ mem)) (hwf.parent hmode)
          (by simp [hmode])
      rw [hmode] at hdir
      exact rewrite_of_not_hasSpare hwf hplain hfits hzero hroom hdir hspare s

end Concat

/-! ### Directories that are there -/

/-- Nothing has to be made on the way to a directory that is there. -/
theorem makeDirectories_of_found (hdir : tree.find true (Path.text dir) =
      .ok ⟨base, some (.directory mode)⟩)
    (hlast : tree.find false (Path.text dir) = .ok ⟨base, some (.directory mode)⟩) :
    tree.makeDirectories dir.reverse = (none, tree) := by
  rcases List.eq_nil_or_concat' dir with rfl | ⟨up, name, rfl⟩
  · rfl
  · have hthere : tree.isDirectory (Path.text (up ++ [name])) = true :=
      isDirectory_iff.mpr ⟨base, mode, hdir⟩
    rw [makeDirectories_concat]
    simp only [makeDirectory, hlast, Attempt.ok_bind]
    exact if_pos hthere

end Tree

end Workbench.Files
