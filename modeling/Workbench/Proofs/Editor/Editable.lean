/-
# Files that can be edited

In a project without links an edit of a file that can be viewed stops nowhere before the file
is written: the path is resolved as it was for the view, and the text is read again. Writing
asks for more than reading, though. The new text goes to a temporary file with a longer name,
so a file whose name or written path is close to the limits can be viewed and not be edited,
and none can be made under such a name, although the name itself is allowed.

* `ShowsFile` — a view of a path shows a file.
* `edits_iff_hasSpare` — **which files can be edited or made**, and what comes of it.
-/

import Workbench.Proofs.Editor.Viewing
import Workbench.Proofs.Files.Relative
import Workbench.Proofs.Files.Sparing
import Workbench.Proofs.Project.Linkless

namespace Workbench

open Workbench.Files Workbench.Files.Tree

/-! ### Files of a project without links -/

namespace Project.Linkless

variable {project : Project} {tree : Tree} {path dir : Path} {name text : String} {mode : Nat}
  {content : Content}

/-- A path that stands for a place in a directory of the project is accepted. -/
theorem resolve_of_isDirectory (h : project.Linkless tree)
    (hspelled : Path.cancel (project.namesOf text) = some (dir ++ [name]))
    (hin : project.root <+: dir) (hdir : tree.isDirectory (Path.text dir) = true) :
    project.resolve tree text = .ok (dir ++ [name]) := by
  have hplain := plain_of_spelled (plain_root h.wellFormed h.root) hspelled
  have hbelow : project.root <+: dir ++ [name] := hin.trans (List.prefix_append ..)
  obtain ⟨base, mode, hfind⟩ := isDirectory_iff.mp hdir
  obtain ⟨up, real, -, ha⟩ := Tree.anchor_eq tree (dir ++ [name])
  have hup : dir <+: up :=
    ha.deepest dir (List.prefix_append ..) (isThere_iff.mpr ⟨_, _, hfind⟩)
  refine resolve_eq_ok_iff.mpr ⟨up, real, hspelled, hbelow, ha, fun _ => ?_⟩
  rw [h.anchor_eq hbelow hplain ha]
  exact hin.trans hup

variable (hroom : tree.entries.length < 16 ^ 32)

include hroom

/-- A file that is found is rewritten exactly when there is room for the temporary name. -/
theorem rewrite_of_found (h : project.Linkless tree) (hin : project.root <+: path)
    (hplain : Path.Plain path)
    (hfind : tree.find true (Path.text path) = .ok ⟨path, some (.file mode content)⟩)
    (s : String) :
    tree.rewrite path s =
      if path.HasSpare then (none, tree.put path (.file mode (.text s)))
      else (some .nameTooLong, tree) := by
  have hentry : tree.get? path = some (.file mode content) :=
    (leads_of_find hplain hfind).entry_eq
  rcases List.eq_nil_or_concat' path with rfl | ⟨dir, name, rfl⟩
  · simp at hentry
  · have hfits := fits_of_find hfind
    have hparent := h.wellFormed.parent hentry
    rw [List.dropLast_concat] at hparent
    rw [rewrite_concat h.wellFormed hplain hfits.of_concat hfits.not_mem_concat hroom
      (leads_of_find hplain hfind).short hparent
      (by simp [HasDirectory, hentry, Entry.isDirectory]) fun target => h.no_link _ target hin,
      hentry]
    rfl

/-- A file is made in a directory that is there exactly when there is room for the temporary
name. -/
theorem rewrite_of_free (h : project.Linkless tree) (hin : project.root <+: dir)
    (hplain : Path.Plain (dir ++ [name])) (hdir : tree.isDirectory (Path.text dir) = true)
    (hshort : name.utf8ByteSize ≤ Path.nameLimit) (hzero : '\x00' ∉ name.toList)
    (hfree : tree.get? (dir ++ [name]) = none) (s : String) :
    tree.rewrite (dir ++ [name]) s =
      if Path.HasSpare (dir ++ [name]) then
        (none, tree.put (dir ++ [name]) (.file fileMode (.text s)))
      else (some .nameTooLong, tree) := by
  obtain ⟨hplainDir, -⟩ := Path.plain_append.mp hplain
  obtain ⟨base, mode, hfind⟩ := isDirectory_iff.mp hdir
  have hplace := h.find_eq hin hplainDir hfind
  obtain ⟨rfl, hentry⟩ : base = dir ∧ some (.directory mode) = tree.get? dir := by
    simpa using hplace
  have hnames : ∀ other ∈ base ++ [name], other.utf8ByteSize ≤ Path.nameLimit := by
    intro other mem
    rcases List.mem_append.mp mem with mem | mem
    · exact (leads_of_find hplainDir hfind).short other mem
    · rw [List.mem_singleton.mp mem]
      exact hshort
  rw [rewrite_concat h.wellFormed hplain (fits_of_find hfind) hzero hroom hnames
    (hasDirectory_iff.mpr ⟨mode, hentry.symm⟩) (by simp [HasDirectory, hfree])
    (by simp [hfree]), hfree]
  rfl

end Project.Linkless

namespace Editor

open Workbench.Text

variable {e : Editor} {desk : Desk} {tree : Tree} {path text : String} {place dir : Path}
  {name : String}

/-! ### What is viewed -/

/-- A view of a path shows a file: it shows what is at a place, and that is no directory. -/
structure ShowsFile (e : Editor) (tree : Tree) (path : String) (place : Path) : Prop where
  file : e.resolveFile tree path = .ok place
  view : ∃ range shown, e.view tree path range = .ok shown

/-- What a view of a file shows was read from it. -/
theorem ShowsFile.readText (h : e.ShowsFile tree path place) :
    ∃ content, tree.readText (Path.text place) = .ok content := by
  obtain ⟨hfile, range, shown, hview⟩ := h
  obtain ⟨hres, hthere, hdir⟩ := resolveFile_eq_ok_iff.mp hfile
  have hplace := resolveThere_eq_ok_iff.mpr ⟨hres, hthere⟩
  simp only [Editor.view, hplace, Attempt.ok_bind, hdir, Bool.false_eq_true, if_false,
    Attempt.bind_eq_ok_iff, readFile_eq_ok_iff] at hview
  obtain ⟨content, hread, -⟩ := hview
  exact ⟨content, hread⟩

/-- Before the first line of a file that is read a text can always be put in. -/
theorem findInsertion_zero {content : String} (hfile : e.resolveFile tree path = .ok place)
    (hread : tree.readText (Path.text place) = .ok content) :
    e.findInsertion tree path 0 = .ok (place, content, 0) := by
  have hline : ¬ ((0 : Int) < 0 ∨ ((Lines.split content.toList).length : Int) < 0) := by omega
  simp only [findInsertion, hfile, readFile_eq_ok_iff.mpr hread, Attempt.ok_bind, if_neg hline]
  rfl

/-! ### Edits -/

section Linkless

variable (linkless : e.project.Linkless desk.tree) (room : desk.tree.entries.length < 16 ^ 32)

include linkless room

/-- **A text is put in at the start of a file that can be viewed** exactly when there is room
for the temporary name of the file. -/
theorem insert_of_showsFile (h : e.ShowsFile desk.tree path place) :
    ∃ mode content, desk.tree.get? place = some (.file mode (.text content)) ∧
      ∀ text, e.insert desk path 0 text =
        if place.HasSpare then
          (.ok (e.editedText place (insertLines content.toList 0 text.toList) 0
              (max (Lines.split text.toList).length 1)),
            ⟨desk.tree.put place
                (.file mode (.text (String.ofList (insertLines content.toList 0 text.toList)))),
              desk.history.push place ⟨some content, .insert⟩⟩)
        else (.error (.access path .nameTooLong), desk) := by
  obtain ⟨content, hread⟩ := h.readText
  obtain ⟨hres, -, -⟩ := resolveFile_eq_ok_iff.mp h.file
  obtain ⟨up, real, hr⟩ := Project.resolve_eq_ok_iff.mp hres
  have hplain := hr.plain (Project.plain_root linkless.wellFormed linkless.root)
  obtain ⟨base, mode, hfind⟩ := readText_eq_ok_iff.mp hread
  obtain ⟨rfl, hentry⟩ : base = place ∧ some (.file mode (.text content)) =
      desk.tree.get? place := by
    simpa using linkless.find_eq hr.below hplain hfind
  refine ⟨mode, content, hentry.symm, ?_⟩
  intro text
  have hrewrite := linkless.rewrite_of_found room hr.below hplain hfind
    (String.ofList (insertLines content.toList 0 text.toList))
  simp only [insert, findInsertion_zero h.file hread, commit, hrewrite]
  by_cases hspare : Path.HasSpare base
  · simp only [if_pos hspare]
  · simp only [if_neg hspare]

/-- **A file is made in a directory that is there**, under a name that is allowed and at which
nothing is, exactly when there is room for its temporary name. -/
theorem create_of_isDirectory
    (hspelled : Path.cancel (e.project.namesOf path) = some (dir ++ [name]))
    (hin : e.project.root <+: dir) (hdir : desk.tree.isDirectory (Path.text dir) = true)
    (hshort : name.utf8ByteSize ≤ Path.nameLimit) (hzero : '\x00' ∉ name.toList)
    (hfree : desk.tree.get? (dir ++ [name]) = none) (text : String) :
    e.create desk path text =
      if Path.HasSpare (dir ++ [name]) then
        (.ok ("File created successfully at: " ++ e.project.relative (dir ++ [name])),
          ⟨desk.tree.put (dir ++ [name]) (.file fileMode (.text text)),
            desk.history.push (dir ++ [name]) ⟨none, .create⟩⟩)
      else (.error (.access path .nameTooLong), desk) := by
  have hplain :=
    Project.plain_of_spelled (Project.plain_root linkless.wellFormed linkless.root) hspelled
  obtain ⟨hplainDir, -⟩ := Path.plain_append.mp hplain
  have hres := resolve_eq_ok_iff.mpr (linkless.resolve_of_isDirectory hspelled hin hdir)
  obtain ⟨base, mode, hfind⟩ := isDirectory_iff.mp hdir
  obtain ⟨rfl, hentry⟩ : base = dir ∧ some (.directory mode) = desk.tree.get? dir := by
    simpa using linkless.find_eq hin hplainDir hfind
  have hthere := not_isThere_of_empty linkless.wellFormed hplain hfind hfree
  have hlast : desk.tree.find false (Path.text base) = .ok ⟨base, some (.directory mode)⟩ := by
    rw [find_of_parent linkless.wellFormed hplainDir (fits_of_find hfind)
      (leads_of_find hplainDir hfind).short (linkless.wellFormed.parent hentry.symm)
      (by simp), ← hentry]
  have hmake := makeDirectories_of_found hfind hlast
  have hrewrite := linkless.rewrite_of_free room hin hplain hdir hshort hzero hfree text
  simp only [create, hres, hthere, Bool.false_eq_true, if_false, List.dropLast_concat, hmake,
    hrewrite]
  by_cases hspare : Path.HasSpare (base ++ [name])
  · simp only [if_pos hspare]
  · simp only [if_neg hspare]

/-- **Which files can be edited or made.** In a project without links, a text is put in at the
start of a file that can be viewed, and a file is made in a directory that is there, under a
name that is allowed and at which nothing is, exactly when the name and the written path are
shorter than their limits by as much as the temporary name is longer. Otherwise the file name
is said to be too long, and nothing is changed. -/
theorem edits_iff_hasSpare :
    (∀ path place, e.ShowsFile desk.tree path place →
      ∃ mode content, desk.tree.get? place = some (.file mode (.text content)) ∧
        ∀ text, e.insert desk path 0 text =
          if place.HasSpare then
            (.ok (e.editedText place (insertLines content.toList 0 text.toList) 0
                (max (Lines.split text.toList).length 1)),
              ⟨desk.tree.put place
                  (.file mode (.text (String.ofList (insertLines content.toList 0 text.toList)))),
                desk.history.push place ⟨some content, .insert⟩⟩)
          else (.error (.access path .nameTooLong), desk)) ∧
    ∀ path dir name, Path.cancel (e.project.namesOf path) = some (dir ++ [name]) →
      e.project.root <+: dir → desk.tree.isDirectory (Path.text dir) = true →
      name.utf8ByteSize ≤ Path.nameLimit → '\x00' ∉ name.toList →
      desk.tree.get? (dir ++ [name]) = none →
      ∀ text, e.create desk path text =
        if Path.HasSpare (dir ++ [name]) then
          (.ok ("File created successfully at: " ++ e.project.relative (dir ++ [name])),
            ⟨desk.tree.put (dir ++ [name]) (.file fileMode (.text text)),
              desk.history.push (dir ++ [name]) ⟨none, .create⟩⟩)
        else (.error (.access path .nameTooLong), desk) := by
  constructor
  · intro path place h
    exact insert_of_showsFile linkless room h
  · intro path dir name hspelled hin hdir hshort hzero hfree text
    exact create_of_isDirectory linkless room hspelled hin hdir hshort hzero hfree text

end Linkless

/-! ### Long names -/

/-- What is written below the root of a project stands for the place there. -/
theorem cancel_relativeText {project : Project} (hroot : Path.Plain project.root)
    (hplain : Path.Plain place) (hne : place ≠ []) :
    Path.cancel (project.namesOf (Path.relativeText place)) = some (project.root ++ place) := by
  have habsolute := Path.isAbsolute_relativeText hplain hne ""
  rw [String.append_empty] at habsolute
  have hnames : project.namesOf (Path.relativeText place) = project.root ++ place := by
    simp [Project.namesOf, habsolute, Path.names_relativeText hplain]
  rw [hnames, Path.cancel_plain (Path.plain_append.mpr ⟨hroot, hplain⟩)]

/-- In a project without links every file with a text can be viewed, if its names and its
written path are within their limits. -/
theorem showsFile_of_fits {mode : Nat} {content : String} (linkless : e.project.Linkless tree)
    (hspelled : Path.cancel (e.project.namesOf path) = some (dir ++ [name]))
    (hin : e.project.root <+: dir) (hfits : Path.Fits (dir ++ [name]))
    (hshort : ∀ other ∈ dir ++ [name], other.utf8ByteSize ≤ Path.nameLimit)
    (hentry : tree.get? (dir ++ [name]) = some (.file mode (.text content))) :
    e.ShowsFile tree path (dir ++ [name]) := by
  have hplain :=
    Project.plain_of_spelled (Project.plain_root linkless.wellFormed linkless.root) hspelled
  obtain ⟨hplainDir, -⟩ := Path.plain_append.mp hplain
  have hparent := linkless.wellFormed.parent hentry
  have hfind : tree.find true (Path.text (dir ++ [name])) =
      .ok ⟨dir ++ [name], tree.get? (dir ++ [name])⟩ :=
    find_of_parent linkless.wellFormed hplain hfits hshort hparent (by simp [hentry])
  rw [List.dropLast_concat] at hparent
  obtain ⟨mode', hmode⟩ := hasDirectory_iff.mp hparent
  have hdir : tree.find true (Path.text dir) = .ok ⟨dir, tree.get? dir⟩ :=
    find_of_parent linkless.wellFormed hplainDir hfits.of_concat
      (fun other mem => hshort other (List.mem_append_left _ mem))
      (linkless.wellFormed.parent hmode) (by simp [hmode])
  rw [hmode] at hdir
  rw [hentry] at hfind
  have hread := readText_eq_ok_iff.mpr ⟨_, _, hfind⟩
  have hres := resolve_eq_ok_iff.mpr
    (linkless.resolve_of_isDirectory hspelled hin (isDirectory_iff.mpr ⟨_, _, hdir⟩))
  refine ⟨?_, none, _, view_of_readText hres hread none⟩
  exact resolveFile_eq_ok_iff.mpr ⟨resolve_eq_ok_iff.mp hres, there_of_readText hread⟩

/-- A name of so many letters. -/
def letters (count : Nat) : String :=
  String.ofList (List.replicate count 'a')

/-- A project with one file, which has this name. -/
def loneDesk (name : String) : Desk :=
  ⟨⟨[(["p"], .directory 0o755), (["p", name], .file 0o644 (.text "one\n"))], []⟩, .empty⟩

section Letters

variable {count : Nat}

theorem utf8ByteSize_letters (count : Nat) : (letters count).utf8ByteSize = count := by
  rw [letters, byteLength_ofList, byteLength_of_ascii, List.length_replicate]
  intro c mem
  rw [(List.mem_replicate.mp mem).2]
  rfl

theorem eq_of_mem_letters {c : Char} (h : c ∈ (letters count).toList) : c = 'a' := by
  rw [letters, String.toList_ofList] at h
  exact (List.mem_replicate.mp h).2

theorem isName_letters (h : 2 < count) : Path.IsName (letters count) := by
  have hsize := utf8ByteSize_letters count
  refine ⟨?_, ?_, ?_, ?_⟩
  · intro heq
    rw [heq] at hsize
    have : "".utf8ByteSize = 0 := by decide
    omega
  · intro heq
    rw [heq] at hsize
    have : ".".utf8ByteSize = 1 := by decide
    omega
  · intro heq
    rw [heq] at hsize
    have : "..".utf8ByteSize = 2 := by decide
    omega
  · intro mem
    exact absurd (eq_of_mem_letters mem) (by decide)

theorem zero_not_mem_letters : '\x00' ∉ (letters count).toList := by
  intro mem
  exact absurd (eq_of_mem_letters mem) (by decide)

theorem cancel_letters (h : 2 < count) :
    Path.cancel (sampleEditor.project.namesOf (letters count)) =
      some (["p"] ++ [letters count]) := by
  have hroot : Path.Plain sampleEditor.project.root := by decide
  have hcancel := cancel_relativeText hroot (Path.plain_singleton.mpr (isName_letters h))
    (List.cons_ne_nil _ _)
  rw [Path.relativeText, String.intercalate_singleton] at hcancel
  exact hcancel

theorem utf8ByteSize_text_letters (count : Nat) :
    (Path.text (["p"] ++ [letters count])).utf8ByteSize = count + 3 := by
  have htext := Path.text_concat ["p"] (letters count)
  rw [if_neg (List.cons_ne_nil _ _)] at htext
  have hfront : (Path.text ["p"] ++ "/").utf8ByteSize = 3 := by decide
  rw [htext, String.utf8ByteSize_append, utf8ByteSize_letters, hfront, Nat.add_comm]

theorem get?_loneDesk (name : String) :
    (loneDesk name).tree.get? (["p"] ++ [name]) = some (.file 0o644 (.text "one\n")) := by
  simp [loneDesk, Tree.get?]

theorem linkless_loneDesk (h : Path.IsName name) :
    sampleEditor.project.Linkless (loneDesk name).tree := by
  refine Project.linkless_iff.mpr ⟨⟨?_, ?_, ?_⟩, ?_, ?_⟩
  · simp [loneDesk]
  · have hp : Path.IsName "p" := by decide
    simp [loneDesk, Path.Plain, h, hp]
  · simp [loneDesk, HasDirectory, Tree.get?, Entry.isDirectory]
  · simp [loneDesk, HasDirectory, Tree.get?, sampleEditor, Entry.isDirectory]
  · simp [loneDesk, Entry.isFile, Entry.isDirectory]

theorem showsFile_loneDesk (h : 2 < count) (hshort : count ≤ Path.nameLimit) :
    sampleEditor.ShowsFile (loneDesk (letters count)).tree (letters count)
      (["p"] ++ [letters count]) := by
  have hp : Path.Fits ["p"] ∧ "p".utf8ByteSize ≤ Path.nameLimit := by decide
  refine showsFile_of_fits (linkless_loneDesk (isName_letters h)) (cancel_letters h)
    (List.prefix_refl _) ⟨?_, ?_⟩ ?_ (get?_loneDesk _)
  · exact Path.zero_not_mem_concat hp.1 zero_not_mem_letters
  · have : Path.nameLimit + 3 ≤ Path.textLimit := by decide
    rw [utf8ByteSize_text_letters]
    omega
  · intro other mem
    rcases List.mem_append.mp mem with mem | mem
    · rw [List.mem_singleton.mp mem]
      exact hp.2
    · rw [List.mem_singleton.mp mem, utf8ByteSize_letters]
      exact hshort

theorem hasSpare_letters :
    Path.HasSpare (["p"] ++ [letters count]) ↔ count + Path.spare ≤ Path.nameLimit := by
  have : Path.nameLimit + 3 ≤ Path.textLimit := by decide
  rw [Path.hasSpare_concat, utf8ByteSize_text_letters, utf8ByteSize_letters]
  omega

end Letters

theorem edits_iff_hasSpare_letters :
    (sampleEditor.project.Linkless (loneDesk (letters 217)).tree ∧
      (loneDesk (letters 217)).tree.entries.length < 16 ^ 32) ∧
    sampleEditor.ShowsFile (loneDesk (letters 217)).tree (letters 217) ["p", letters 217] ∧
    ∃ shown, (sampleEditor.insert (loneDesk (letters 217)) (letters 217) 0 "zero\n").1 =
      .ok shown := by
  have hcount : 2 < 217 := by decide
  have hlinkless := linkless_loneDesk (isName_letters hcount)
  have hroom : (loneDesk (letters 217)).tree.entries.length < 16 ^ 32 := by
    simp [loneDesk]
  have hshows := showsFile_loneDesk hcount (by decide)
  obtain ⟨hinsert, -⟩ := edits_iff_hasSpare hlinkless hroom
  obtain ⟨mode, content, -, hdone⟩ := hinsert _ _ hshows
  refine ⟨⟨hlinkless, hroom⟩, hshows, ?_⟩
  rw [hdone, if_pos (hasSpare_letters.mpr (by decide))]
  exact ⟨_, rfl⟩

/-- A file that can be viewed and not be edited, and a name that is allowed under which no file
can be made. -/
theorem letters_not_editable :
    sampleEditor.project.Linkless (loneDesk (letters 218)).tree ∧
    sampleEditor.ShowsFile (loneDesk (letters 218)).tree (letters 218) ["p", letters 218] ∧
    sampleEditor.insert (loneDesk (letters 218)) (letters 218) 0 "zero\n" =
      (.error (.access (letters 218) .nameTooLong), loneDesk (letters 218)) ∧
    sampleEditor.project.Linkless (loneDesk "a").tree ∧
    (loneDesk "a").tree.isDirectory (Path.text ["p"]) = true ∧
    (letters 218).utf8ByteSize ≤ Path.nameLimit ∧ '\x00' ∉ (letters 218).toList ∧
    (loneDesk "a").tree.get? ["p", letters 218] = none ∧
    sampleEditor.create (loneDesk "a") (letters 218) "one\n" =
      (.error (.access (letters 218) .nameTooLong), loneDesk "a") := by
  have hcount : 2 < 218 := by decide
  have hlinkless := linkless_loneDesk (isName_letters hcount)
  have hshows := showsFile_loneDesk hcount (by decide)
  have hspare : ¬ Path.HasSpare (["p"] ++ [letters 218]) :=
    fun h => absurd (hasSpare_letters.mp h) (by decide)
  obtain ⟨mode, content, -, hrefused⟩ :=
    insert_of_showsFile hlinkless (by simp [loneDesk]) hshows
  have hother : sampleEditor.project.Linkless (loneDesk "a").tree :=
    linkless_loneDesk (by decide)
  have hdir : (loneDesk "a").tree.isDirectory (Path.text ["p"]) = true := by decide +kernel
  have hsize : (letters 218).utf8ByteSize ≤ Path.nameLimit := by
    rw [utf8ByteSize_letters]
    decide
  have hfree : (loneDesk "a").tree.get? (["p"] ++ [letters 218]) = none := by
    have hne : "a" ≠ letters 218 := by
      intro heq
      have hlong := utf8ByteSize_letters 218
      rw [← heq] at hlong
      exact absurd hlong (by decide)
    simp [loneDesk, Tree.get?, hne]
  refine ⟨hlinkless, hshows, ?_, hother, hdir, hsize, zero_not_mem_letters, hfree, ?_⟩
  · rw [hrefused, if_neg hspare]
  · rw [create_of_isDirectory hother (by simp [loneDesk]) (cancel_letters hcount)
      (List.prefix_refl _) hdir hsize zero_not_mem_letters hfree, if_neg hspare]

end Editor

end Workbench
