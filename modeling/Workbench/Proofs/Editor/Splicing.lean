/-
# What an edit leaves

An edit of a file ends with its text written back and the old one remembered. When the
writing goes well, the place where the last name of the path stands holds a file with the
new text and the permissions of the file that was edited; every other place of the tree is
as it was, so nothing is left of the temporary file, and so are the edits of other paths.

* `Tree.exists_behind` — a file that is read and written back is behind its path.
* `Spliced` — what there is after an edit, all told.
* `commit_spliced` — **what an edit leaves** when its text is written back.
-/

import Workbench.Proofs.Editor.Linked

namespace Workbench

open Workbench.Files

namespace Files.Tree

variable {tree : Tree} {path file : Path} {mode : Nat} {text : String}

/-- What is read at a path is a file to which the path leads, and no directory. -/
theorem there_of_readText (h : tree.readText (Path.text path) = .ok text) :
    tree.isThere (Path.text path) = true ∧ tree.isDirectory (Path.text path) = false := by
  obtain ⟨file, mode, hfind⟩ := readText_eq_ok_iff.mp h
  refine ⟨isThere_iff.mpr ⟨file, _, hfind⟩, Bool.eq_false_iff.mpr fun hdir => ?_⟩
  obtain ⟨other, mode', hother⟩ := isDirectory_iff.mp hdir
  simp [hfind] at hother

/-- A file that is read, and written back without a fault, is behind its path. -/
theorem exists_behind (wellFormed : tree.WellFormed) (plain : Path.Plain path)
    (read : tree.readText (Path.text path) = .ok text) {new : String}
    (writable : (tree.rewrite path new).1 = none) :
    ∃ link file entry mode, tree.Behind path link file entry mode text := by
  obtain ⟨file, mode, hleads⟩ := readText_eq_ok_iff.mp read
  rcases rewrite_cases wellFormed plain new with ⟨fault, hfail⟩ | ⟨_, place, _, hfind, _, _⟩
  · simp [hfail] at writable
  · obtain ⟨link, entry⟩ := place
    cases entry with
    | some entry => exact ⟨link, file, entry, mode, wellFormed, plain, hfind, hleads⟩
    | none =>
        have hsame := ((leads_of_find plain hfind).following (by simp)).find_eq plain
          (fits_of_find hfind)
        simp [hleads] at hsame

/-- A file to which a path leads without a link at the end is behind that path. -/
theorem behind_of_find (wellFormed : tree.WellFormed) (plain : Path.Plain path)
    (regular : tree.find false (Path.text path) = .ok ⟨file, some (.file mode (.text text))⟩) :
    tree.Behind path file file (.file mode (.text text)) mode text where
  wellFormed := wellFormed
  plain := plain
  named := regular
  leads := ((leads_of_find plain regular).following (by simp)).find_eq plain
    (fits_of_find regular)

end Files.Tree

namespace Editor

open Workbench.Files.Tree Workbench.Text

variable {e : Editor} {desk : Desk} {place link file : Path} {path content : String}
  {operation : Operation} {entry : Entry} {mode : Nat} {updated : List Char}

/-- What there is after an edit: the new text where the last name of the path stands, with
the permissions of the file that was edited, and the old text as the last edit of the path.
All else is as before, so no temporary file is left. -/
structure Spliced (desk : Desk) (place link : Path) (operation : Operation) (mode : Nat)
    (old new : String) (after : Desk) : Prop where
  file : after.tree.get? link = some (.file mode (.text new))
  read : after.tree.readText (Path.text place) = .ok new
  elsewhere : ∀ other, other ≠ link → after.tree.get? other = desk.tree.get? other
  pushed : after.history.entries place =
    desk.history.entries place ++ [⟨some old, operation⟩]
  histories : ∀ other, other ≠ place → after.history.entries other = desk.history.entries other

/-- **What an edit leaves** when its text is written back. -/
theorem commit_spliced (e : Editor) (path : String) (operation : Operation)
    (h : desk.tree.Behind place link file entry mode content)
    (writable : (desk.tree.rewrite place (String.ofList updated)).1 = none) (first span : Nat) :
    ∃ after, e.commit desk path place operation content updated first span =
        (.ok (e.editedText place updated first span), after) ∧
      Spliced desk place link operation mode content (String.ofList updated) after := by
  cases hrewrite : desk.tree.rewrite place (String.ofList updated) with
  | mk outcome after =>
      obtain rfl : outcome = none := by simpa [hrewrite] using writable
      obtain ⟨rfl, -⟩ := h.rewrite_eq hrewrite
      refine ⟨⟨desk.tree.put link (.file mode (.text (String.ofList updated))),
        desk.history.push place ⟨some content, operation⟩⟩, by simp only [commit, hrewrite], ?_⟩
      exact {
        file := get?_put_self desk.tree h.link_ne_nil _
        read := readText_eq_ok_iff.mpr ⟨link, mode, (h.put mode _).leads⟩
        elsewhere := fun other hne => get?_put_of_ne desk.tree hne _
        pushed := History.entries_push_self ..
        histories := fun other hne => History.entries_push_of_ne _ hne _ }

/-- A project with one file, of two lines, the last without a newline. -/
def draftDesk : Desk :=
  ⟨⟨[(["p"], .directory 0o755), (["p", "a"], .file 0o600 (.text "één\ntwee"))], []⟩, .empty⟩

theorem writable_draftDesk (s : String) : (draftDesk.tree.rewrite ["p", "a"] s).1 = none := by
  have hr : Rewritable ["p", "a"] :=
    ⟨by decide, by decide, by decide, by decide, by decide⟩
  have hwf : draftDesk.tree.WellFormed := by decide
  rw [hr.rewrite_eq hwf (by decide) (by decide) (by decide) s]

end Editor

end Workbench
