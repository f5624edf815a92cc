/-
# Views of files

The view of a file is the numbered form of its text, from which the text comes back, and the
view of a range is the lines that these are in the view of the whole. A file that was made
can be viewed under the same path, unless it took the place of a link on the way to it: a
path that follows too many links is not there, so a file can be made under it, and when the
last name of the path stands for one of these links, the file takes the place of that.

* `Tree.find_put_of_isDirectory` — a new file is found when its directory still is.
* `Lines.Faithful` — a text is shown line by line, and comes back from that.
* `Made` — where a file was made.
* `ValidRange` — the ranges of lines that a text has.
* `views_faithful` — **what views show** of files that were made or are there.
-/

import Workbench.Proofs.Editor.Splicing
import Workbench.Proofs.Files.Within
import Workbench.Proofs.Text.Lines

namespace Workbench

open Workbench.Files Workbench.Text

/-! ### Numbered texts -/

namespace Text.Lines

/-- A text is shown line by line, each line behind its number and a tab, and the text is
what is left without them. -/
structure Faithful (text shown : List Char) : Prop where
  count : (split shown).length = (split text).length
  numbered : ∀ i line, (split text)[i]? = some line →
    (split shown)[i]? = some ((toString (i + 1)).toList.leftpad 6 ' ' ++ '\t' :: line)
  back : ((split shown).map afterTab).flatten = text

theorem faithful_number (s : List Char) : Faithful s (number s 1) where
  count := by rw [split_number, labelled, List.length_mapIdx]
  numbered i line h := by
    rw [split_number, labelled, List.getElem?_mapIdx, h, Option.map_some, label_eq,
      Nat.add_comm 1 i]
  back := by rw [split_number, map_afterTab_labelled, flatten_split]

end Text.Lines

/-! ### Where a new file is found -/

namespace Files.Tree

variable {tree : Tree} {path : Path} {found : Place} {mode : Nat} {content : Content}

section Put

variable (hwf : tree.WellFormed) (hplain : Path.Plain path)
  (hfind : tree.find false (Path.text path) = .ok found) (hno : ¬ tree.HasDirectory found.path)

include hwf hplain hfind hno

theorem wellFormed_put_of_find (mode : Nat) (content : Content) :
    (tree.put found.path (.file mode content)).WellFormed := by
  obtain ⟨dir, name, base, old, rfl, hpath, -, hdir⟩ :=
    exists_concat_of_find hwf hplain hfind hno
  have hbase := (leads_of_find (Path.plain_append.mp hplain).1 hdir).entry_eq
  rw [hpath] at hno ⊢
  refine hwf.put (by simp) ?_ ?_ fun hdir => absurd hdir hno
  · exact Path.plain_append.mpr ⟨hwf.plain hbase, (Path.plain_append.mp hplain).2⟩
  · rw [List.dropLast_concat]
    exact hasDirectory_iff.mpr ⟨old, hbase⟩

/-- **A new file is found** when its directory is still found. -/
theorem find_put_of_isDirectory
    (hkept : (tree.put found.path (.file mode content)).isDirectory
      (Path.text path.dropLast) = true) (follow : Bool) :
    (tree.put found.path (.file mode content)).find follow (Path.text path) =
      .ok ⟨found.path, some (.file mode content)⟩ := by
  obtain ⟨dir, name, base, old, rfl, hpath, hname, hdir⟩ :=
    exists_concat_of_find hwf hplain hfind hno
  have hdirPlain := (Path.plain_append.mp hplain).1
  rw [List.dropLast_concat] at hkept
  rw [hpath] at hkept ⊢
  have hself := get?_put_self tree (by simp : base ++ [name] ≠ []) (.file mode content)
  obtain ⟨other, now, hafter⟩ := isDirectory_iff.mp hkept
  have hleads := leads_of_find hdirPlain hafter
  -- The way to the directory does not pass the new file, so it was there before.
  have hsame : other = base := by
    rcases hleads.of_put (by simp) rfl with rfl | hbefore
    · have hentry := hleads.entry_eq
      simp [hself] at hentry
    · have hunique := hbefore.unique (leads_of_find hdirPlain hdir)
      exact congrArg Place.path hunique
  subst hsame
  have hlast := (hleads.concat follow (hasDirectory_iff.mpr ⟨now, hleads.entry_eq⟩) hname
    (by simp [hself])).find_eq hplain (fits_of_find hfind)
  rw [hlast, hself]

/-- When nothing was where the file was made, its directory is still found. -/
theorem isDirectory_put_of_none (hnone : found.entry = none) :
    (tree.put found.path (.file mode content)).isDirectory (Path.text path.dropLast) = true := by
  obtain ⟨dir, name, base, old, rfl, hpath, -, hdir⟩ :=
    exists_concat_of_find hwf hplain hfind hno
  have hentry := (leads_of_find hplain hfind).entry_eq
  have hdirPlain := (Path.plain_append.mp hplain).1
  have hbase := (leads_of_find hdirPlain hdir).entry_eq
  rw [List.dropLast_concat]
  rw [hpath] at hentry ⊢
  have hkept := ((leads_of_find hdirPlain hdir).put
    (by simp : base ++ [name] ≠ []) (by simp [hentry, hnone])
    (by simp : ∀ target, Entry.file mode content ≠ .link target)).find_eq hdirPlain
      (fits_of_find hdir)
  rw [get?_put_of_ne tree (by simp : base ≠ base ++ [name]), hbase] at hkept
  exact isDirectory_iff.mpr ⟨base, old, hkept⟩

/-- When the directories of a path were made, nothing is where its last name stands, or it
stood for a link before. -/
theorem entry_of_arrived {before : Tree} {inside : Path → Prop}
    (harrived : Arrived inside before tree path.dropLast)
    (hnew : before.isThere (Path.text path) = false) :
    found.entry = none ∨
      ∃ target, before.find false (Path.text path) = .ok ⟨found.path, some (.link target)⟩ := by
  obtain ⟨dir, name, base, old, rfl, hpath, -, hdir⟩ :=
    exists_concat_of_find hwf hplain hfind hno
  rw [List.dropLast_concat] at harrived
  obtain ⟨other, _, hother, hwhere⟩ := harrived
  obtain ⟨rfl, -⟩ : other = base ∧ _ := by simpa [hdir, eq_comm] using hother
  have hentry := (leads_of_find hplain hfind).entry_eq
  rcases hwhere with rfl | ⟨-, hempty, -⟩
  · by_cases hlink : ∃ target, found.entry = some (.link target)
    · obtain ⟨target, hlink⟩ := hlink
      exact .inr ⟨target, by rw [hfind, ← hlink]⟩
    · left
      have hfollow := ((leads_of_find hplain hfind).following (by simpa using hlink)).find_eq
        hplain (fits_of_find hfind)
      by_contra hsome
      obtain ⟨entry, hsome⟩ := Option.ne_none_iff_exists'.mp hsome
      have hthere := isThere_iff.mpr ⟨found.path, entry, by rw [hfollow, ← hsome]⟩
      simp [hnew] at hthere
  · rw [hpath, hempty] at hentry
    exact .inl hentry.symm

end Put

end Files.Tree

namespace Editor

open Workbench.Files.Tree

variable {e : Editor} {desk after : Desk} {tree : Tree} {place : Path} {path text t said : String}

/-! ### Making a file -/

/-- Where a file was made: the directories on the way to it were there or are made, and it is
put where the last name of the path stands, which is in the project if its directory is then found and that can be told. -/
structure Made (e : Editor) (desk : Desk) (path text : String) (place : Path) (ready : Tree)
    (found : Place) (mode : Nat) (after : Desk) : Prop where
  resolved : e.resolve desk.tree path = .ok place
  plain : Path.Plain place
  wellFormed : ready.WellFormed
  named : ready.find false (Path.text place) = .ok found
  free : ¬ ready.HasDirectory found.path
  inside : after.tree.isDirectory (Path.text place.dropLast) = true →
    after.tree.leadsFar (Path.text place) = false → e.project.root <+: found.path
  put : after.tree = ready.put found.path (.file mode (.text text))
  entry : found.entry = none ∨ e.project.EndsAtLink desk.tree path found.path

/-- What could be told of the way to a new file when its directory is still found could be
told before it was made of the part of the way that was there. -/
theorem leadsFar_of_made {ready : Tree} {up real : Path} {found : Place} {entry : Entry} {mode : Nat}
    (hwithin : tree.Within ready) (hplain : Path.Plain place)
    (hup : up <+: place.dropLast) (hthere : tree.find true (Path.text up) = .ok ⟨real, some entry⟩)
    (hready : ready.WellFormed) (hfind : ready.find false (Path.text place) = .ok found)
    (hfree : ¬ ready.HasDirectory found.path)
    (hdir : (ready.put found.path (.file mode (.text text))).isDirectory
      (Path.text place.dropLast) = true)
    (htold : (ready.put found.path (.file mode (.text text))).leadsFar (Path.text place) = false) :
    tree.leadsFar (Path.text up) = false := by
  obtain ⟨dir, name, base, old, rfl, hpath, -⟩ := exists_concat_of_find hready hplain hfind hfree
  have hwf := wellFormed_put_of_find hready hplain hfind hfree mode (.text text)
  rw [List.dropLast_concat] at hup hdir
  have hupPlain := (Path.plain_append.mp hplain).1.of_isPrefix hup
  have hne : found.path ≠ [] := by simp [hpath]
  have hself := get?_put_self ready hne (.file mode (.text text))
  -- The part that was there leads to a directory afterwards, and so not to the new file.
  obtain ⟨other, now, hother⟩ : ∃ other now, (ready.put found.path (.file mode (.text text))).find
      true (Path.text up) = .ok ⟨other, some (.directory now)⟩ := by
    obtain ⟨last, now, hlast⟩ := isDirectory_iff.mp hdir
    by_cases heq : up = dir
    · exact heq ▸ ⟨last, now, hlast⟩
    · exact find_above hwf (Path.plain_append.mp hplain).1 hlast hup heq
  have hapart : other ≠ found.path := by
    rintro rfl
    have hentry := (leads_of_find hupPlain hother).entry_eq
    simp [hself] at hentry
  rw [← hwithin.leadsFar hthere, leadsFar_put hne rfl hother hapart, ← Bool.not_eq_true]
  intro hfar
  simp [leadsFar_of_isPrefix hplain (hup.trans (List.prefix_append ..)) hfar] at htold

theorem exists_made (wellFormed : desk.tree.WellFormed) (root : Path.Plain e.project.root)
    (created : e.create desk path text = (.ok said, after)) :
    ∃ place ready found mode, Made e desk path text place ready found mode after := by
  unfold create at created
  split at created
  · cases created
  next place hres =>
  obtain ⟨up, real, hr⟩ := Project.resolve_eq_ok_iff.mp (resolve_eq_ok_iff.mp hres)
  have hplain := hr.plain root
  split at created
  · cases created
  next hnew =>
  replace hnew : desk.tree.isThere (Path.text place) = false := by simpa using hnew
  cases hmake : desk.tree.makeDirectories place.dropLast.reverse with
  | mk outcome ready =>
      -- New directories lie in the project where it can be told where the path leads.
      have hanchored : desk.tree.Anchored
          (fun other => desk.tree.leadsFar (Path.text up) = false → e.project.root <+: other)
          place :=
        fun part name base mode hpart hdir hnone rest htold =>
          hr.anchored (hr.inside htold) wellFormed hplain part name base mode hpart hdir hnone rest
      obtain ⟨hgrown, harrived⟩ := makeDirectories_grown wellFormed hplain.dropLast
        (hanchored.of_isPrefix (List.dropLast_prefix place)) hmake
      have hready := hgrown.wellFormed wellFormed
      rw [hmake] at created
      cases outcome with
      | some fault => cases created
      | none =>
          rcases rewrite_cases hready hplain text with
            ⟨fault, hfail⟩ | ⟨base, found, hw, hfind, hno, hdone⟩
          · simp [hfail] at created
          · simp only [hdone] at created
            obtain ⟨-, rfl⟩ := Prod.mk.inj created
            refine ⟨place, ready, found, _, hres, hplain, hready, hfind, hno, fun hdir htold => ?_,
              rfl, ?_⟩
            · obtain ⟨entry, hthere⟩ := hr.anchor.found
              have htold := leadsFar_of_made hgrown.within hplain (hr.reached_dropLast hnew)
                hthere hready hfind hno hdir htold
              obtain ⟨base, now, hbase, hwhere⟩ := harrived rfl
              exact hr.inside_of_arrived (hr.inside htold) wellFormed hplain hnew hready
                ⟨base, now, hbase, hwhere.imp_right fun ⟨hnone, hempty, hin⟩ =>
                  ⟨hnone, hempty, fun rest => hin rest htold⟩⟩ hfind
            exact (entry_of_arrived hready hplain hfind hno (harrived rfl) hnew).imp_right
              fun hlink => (Project.endsAtLink_iff (resolve_eq_ok_iff.mp hres)).mpr hlink

namespace Made

variable {ready : Tree} {found : Place} {mode : Nat}
  (h : Made e desk path text place ready found mode after)

include h

/-- The file is read when its directory is still found. -/
theorem readText_of_isDirectory
    (hdir : after.tree.isDirectory (Path.text place.dropLast) = true) :
    after.tree.readText (Path.text place) = .ok text := by
  rw [h.put] at hdir ⊢
  exact readText_eq_ok_iff.mpr
    ⟨_, _, find_put_of_isDirectory h.wellFormed h.plain h.named h.free hdir true⟩

/-- The path of the file is then accepted as before. -/
theorem resolve_of_isDirectory
    (hdir : after.tree.isDirectory (Path.text place.dropLast) = true) :
    e.resolve after.tree path = .ok place := by
  obtain ⟨up, real, hr⟩ := Project.resolve_eq_ok_iff.mp (resolve_eq_ok_iff.mp h.resolved)
  have hfind := find_put_of_isDirectory h.wellFormed h.plain h.named h.free
    (h.put ▸ hdir) true
  rw [← h.put] at hfind
  refine resolve_eq_ok_iff.mpr (Project.resolve_eq_ok_iff.mpr
    ⟨place, found.path, hr.spelled, hr.below, ?_, h.inside hdir⟩)
  exact ⟨List.prefix_refl _, ⟨_, hfind⟩, fun other hother _ => hother⟩

/-- What is shown under the path of a file that was made is there, and so is its directory. -/
theorem isDirectory_of_view {shown : String} (hshown : e.view after.tree path none = .ok shown) :
    after.tree.isDirectory (Path.text place.dropLast) = true := by
  obtain ⟨dir, name, _, _, rfl, -⟩ :=
    exists_concat_of_find h.wellFormed h.plain h.named h.free
  have hwf := wellFormed_put_of_find h.wellFormed h.plain h.named h.free mode (.text text)
  simp only [view, Attempt.bind_eq_ok_iff, resolveThere_eq_ok_iff] at hshown
  obtain ⟨place, ⟨hres, hthere⟩, -⟩ := hshown
  obtain ⟨_, _, hr⟩ := Project.resolve_eq_ok_iff.mp (resolve_eq_ok_iff.mp h.resolved)
  obtain ⟨_, _, hr'⟩ := Project.resolve_eq_ok_iff.mp hres
  obtain rfl : place = dir ++ [name] := Option.some.inj (hr'.spelled.symm.trans hr.spelled)
  obtain ⟨_, _, hfind⟩ := isThere_iff.mp hthere
  rw [h.put] at hfind ⊢
  rw [List.dropLast_concat]
  exact isDirectory_iff.mpr
    (find_above hwf h.plain hfind (List.prefix_append dir [name]) (by simp))

end Made

/-! ### Views -/

/-- A view of a file that is read is its numbered text, or the lines of a range of it. -/
theorem view_of_readText (resolved : e.resolve tree path = .ok place)
    (read : tree.readText (Path.text place) = .ok t) (range : Option (Int × Int)) :
    e.view tree path range =
      (numbered t range).map fun shown => clip shown e.limits.maxResponseChars fileNotice := by
  obtain ⟨hthere, hdir⟩ := there_of_readText read
  have hplace : e.resolveThere tree path = .ok place :=
    resolveThere_eq_ok_iff.mpr ⟨resolve_eq_ok_iff.mp resolved, hthere⟩
  have hread : readFile tree path place = .ok t := readFile_eq_ok_iff.mpr read
  simp only [view, hplace, hdir, hread, Attempt.ok_bind]
  cases numbered t range <;> rfl

/-- The ranges of lines that a text with `count` lines has; -1 stands for the last line. -/
def ValidRange (first last : Int) (count : Nat) : Prop :=
  1 ≤ first ∧ first ≤ count ∧ (last = -1 ∨ (first ≤ last ∧ last ≤ count))

instance (first last : Int) (count : Nat) : Decidable (ValidRange first last count) :=
  inferInstanceAs (Decidable (_ ∧ _))

/-- The last line of a range. -/
def lastLine (last : Int) (count : Nat) : Nat :=
  if last = -1 then count else last.toNat

theorem checkRange_of_valid {first last : Int} {count : Nat} (h : ValidRange first last count) :
    checkRange first last count = .ok (first.toNat, lastLine last count) := by
  obtain ⟨hstart, hend, hlast⟩ := h
  unfold checkRange lastLine
  rw [if_neg (by omega)]
  split
  · rfl
  · rw [if_neg (by omega), if_neg (by omega)]

theorem checkRange_of_not_valid {first last : Int} {count : Nat}
    (h : ¬ ValidRange first last count) : ∃ fault, checkRange first last count = .error fault := by
  cases hcheck : checkRange first last count with
  | error fault => exact ⟨fault, rfl⟩
  | ok lines =>
      unfold checkRange at hcheck
      refine absurd ?_ h
      unfold ValidRange
      split at hcheck
      · cases hcheck
      · split at hcheck
        · omega
        · split at hcheck
          · cases hcheck
          · split at hcheck
            · cases hcheck
            · omega

/-- The lines of a range are these lines of the whole text with all of them numbered. -/
theorem numbered_of_valid {first last : Int}
    (h : ValidRange first last (Lines.split t.toList).length) :
    numbered t (some (first, last)) = .ok (String.ofList
      (((Lines.split (numberLines t 1).toList).take
        (lastLine last (Lines.split t.toList).length)).drop (first.toNat - 1)).flatten) := by
  obtain ⟨start, hstart⟩ : ∃ start, first.toNat = start + 1 := by
    obtain ⟨hone, -⟩ := h
    exact ⟨first.toNat - 1, by omega⟩
  have hshown := Lines.numberFrom_drop_take t.toList start
    (lastLine last (Lines.split t.toList).length)
  simp only [numbered, checkRange_of_valid h, hstart, Nat.add_sub_cancel, hshown, numberLines,
    String.toList_ofList]

theorem numbered_of_not_valid {first last : Int}
    (h : ¬ ValidRange first last (Lines.split t.toList).length) :
    ∃ fault, numbered t (some (first, last)) = .error (.range fault) := by
  obtain ⟨fault, hfault⟩ := checkRange_of_not_valid h
  exact ⟨fault, by simp only [numbered, hfault]⟩

/-- **What views show.** A file that was made under a path can be viewed under it when its
directory is still there, as it is unless the last name of the path stood for a link; the view
is then the lines of the text with their numbers. Of a file that is there a range can be viewed
exactly when the file has these lines, and they are the same lines as in the view of the whole
before that is cut. -/
theorem views_faithful (e : Editor) (root : Path.Plain e.project.root) :
    (∀ desk path text said after, desk.tree.WellFormed →
      e.create desk path text = (.ok said, after) →
      (numberLines text 1).utf8ByteSize ≤ e.limits.maxResponseChars →
      ((∃ shown, e.view after.tree path none = .ok shown) ↔
        ∃ place, e.resolve desk.tree path = .ok place ∧
          after.tree.isDirectory (Path.text place.dropLast) = true) ∧
      ((∀ link, ¬ e.project.EndsAtLink desk.tree path link) →
        ∃ shown, e.view after.tree path none = .ok shown) ∧
      ∀ shown, e.view after.tree path none = .ok shown →
        Lines.Faithful text.toList shown.toList) ∧
    (∀ tree path place t, e.resolve tree path = .ok place →
      tree.readText (Path.text place) = .ok t → ∀ first last : Int,
      (ValidRange first last (Lines.split t.toList).length →
        e.view tree path (some (first, last)) = .ok (clip (String.ofList
          (((Lines.split (numberLines t 1).toList).take
            (lastLine last (Lines.split t.toList).length)).drop (first.toNat - 1)).flatten)
          e.limits.maxResponseChars fileNotice)) ∧
      (¬ ValidRange first last (Lines.split t.toList).length →
        ∃ fault, e.view tree path (some (first, last)) = .error (.range fault))) := by
  constructor
  · intro desk path text said after wellFormed created fits
    obtain ⟨place, ready, found, mode, made⟩ := exists_made wellFormed root created
    have hview (h : after.tree.isDirectory (Path.text place.dropLast) = true) :
        e.view after.tree path none = .ok (numberLines text 1) := by
      rw [view_of_readText (made.resolve_of_isDirectory h) (made.readText_of_isDirectory h),
        numbered, Except.map, clip, if_pos fits]
    have hdir {shown : String} (h : e.view after.tree path none = .ok shown) :
        after.tree.isDirectory (Path.text place.dropLast) = true :=
      made.isDirectory_of_view h
    refine ⟨⟨?_, ?_⟩, ?_, ?_⟩
    · rintro ⟨shown, hshown⟩
      exact ⟨place, made.resolved, hdir hshown⟩
    · rintro ⟨other, hother, hkept⟩
      obtain rfl : place = other := by simpa [made.resolved] using hother
      exact ⟨_, hview hkept⟩
    · intro hno
      have hnone := made.entry.resolve_right (hno _)
      exact ⟨_, hview (made.put ▸
        isDirectory_put_of_none made.wellFormed made.plain made.named made.free hnone)⟩
    · intro shown hshown
      obtain rfl : numberLines text 1 = shown := by simpa [hview (hdir hshown)] using hshown
      rw [numberLines, String.toList_ofList]
      exact Lines.faithful_number text.toList
  · intro tree path place t resolved read first last
    rw [view_of_readText resolved read]
    refine ⟨fun hvalid => by rw [numbered_of_valid hvalid]; rfl, fun hno => ?_⟩
    obtain ⟨fault, hfault⟩ := numbered_of_not_valid hno
    exact ⟨fault, by rw [hfault]; rfl⟩

theorem views_faithful_sampleTree :
    Path.Plain sampleEditor.project.root ∧ sampleTree.WellFormed ∧
    sampleEditor.resolve sampleTree "a" = .ok ["p", "a"] ∧
    sampleTree.readText (Path.text ["p", "a"]) = .ok "one\n" ∧
    (∀ link, ¬ sampleEditor.project.EndsAtLink sampleTree "b/c" link) ∧
    (numberLines "\tx\ny" 1).utf8ByteSize ≤ sampleEditor.limits.maxResponseChars ∧
    (∃ said after, sampleEditor.create ⟨sampleTree, ⟨[]⟩⟩ "b/c" "\tx\ny" = (.ok said, after) ∧
      ∃ shown, sampleEditor.view after.tree "b/c" none = .ok shown ∧
        Lines.Faithful "\tx\ny".toList shown.toList) ∧
    sampleEditor.view sampleTree "a" (some (1, -1)) =
      .ok (clip "     1\tone\n" sampleEditor.limits.maxResponseChars fileNotice) ∧
    ∃ fault, sampleEditor.view sampleTree "a" (some (1, 2)) = .error (.range fault) := by
  have hroot : Path.Plain sampleEditor.project.root := by decide
  have hwf : sampleTree.WellFormed := by decide
  have hres : sampleEditor.resolve sampleTree "a" = .ok ["p", "a"] := by decide +kernel
  have hread : sampleTree.readText (Path.text ["p", "a"]) = .ok "one\n" := by decide +kernel
  have hno (link : Path) : ¬ sampleEditor.project.EndsAtLink sampleTree "b/c" link := by
    have hpath : sampleEditor.project.resolve sampleTree "b/c" = .ok ["p", "b", "c"] := by
      decide +kernel
    have hfind : sampleTree.find false (Path.text ["p", "b", "c"]) = .error .missing := by
      decide +kernel
    simp [Project.endsAtLink_iff hpath, hfind]
  have hfits : (numberLines "\tx\ny" 1).utf8ByteSize ≤ sampleEditor.limits.maxResponseChars := by
    decide +kernel
  obtain ⟨hmade, hrange⟩ := views_faithful sampleEditor hroot
  obtain ⟨hvalid, -⟩ := hrange sampleTree "a" _ _ hres hread 1 (-1)
  obtain ⟨-, hinvalid⟩ := hrange sampleTree "a" _ _ hres hread 1 2
  refine ⟨hroot, hwf, hres, hread, hno, hfits, ?_, hvalid (by decide), hinvalid (by decide)⟩
  have hdone : (sampleEditor.create ⟨sampleTree, ⟨[]⟩⟩ "b/c" "\tx\ny").1.isOk := by decide +kernel
  cases hcreate : sampleEditor.create ⟨sampleTree, ⟨[]⟩⟩ "b/c" "\tx\ny" with
  | mk answer after =>
      cases answer with
      | error refusal => simp [hcreate, Except.isOk, Except.toBool] at hdone
      | ok said =>
          obtain ⟨-, hshows, hfaithful⟩ := hmade _ _ _ _ _ hwf hcreate hfits
          obtain ⟨shown, hshown⟩ := hshows hno
          exact ⟨said, after, rfl, shown, hshown, hfaithful shown hshown⟩

/-- A project with a link to itself, and one that follows that link twenty times. -/
def loopDesk : Desk :=
  ⟨⟨[(["p"], .directory 0o755), (["p", "a"], .link "."),
    (["p", "l"], .link "a/a/a/a/a/a/a/a/a/a/a/a/a/a/a/a/a/a/a/a")], []⟩, .empty⟩

/-- A file is made under a path that follows too many links, and takes the place of the link
on the way: then nothing is there under this path. -/
theorem create_loopDesk_not_viewed :
    loopDesk.tree.WellFormed ∧
    sampleEditor.create loopDesk "l/l" "x\n" =
      (.ok "File created successfully at: l/l",
        ⟨loopDesk.tree.put ["p", "l"] (.file 0o644 (.text "x\n")),
          loopDesk.history.push ["p", "l", "l"] ⟨none, .create⟩⟩) ∧
    (numberLines "x\n" 1).utf8ByteSize ≤ sampleEditor.limits.maxResponseChars ∧
    sampleEditor.view (loopDesk.tree.put ["p", "l"] (.file 0o644 (.text "x\n"))) "l/l" none =
      .error (.notFound "l/l") := by
  decide +kernel

end Editor

end Workbench
