/-
# Edits that fail

A request that writes a file back can stop at every one of its steps: where its path leads,
what it asks of the file, reading it, writing the temporary file beside it, moving that. None
of them leaves a trace (`failing_edit_atomic`): the tree is the one before, so there is no
temporary file in it, and an edit that could not be undone is the newest one again.

* `History.push_of_pop?` — an edit that was taken off and put back is as it was.
* `rewrite_failed`, `restore_failed` — a file that could not be written leaves the tree alone.
* `failing_edit_atomic` — **a failing edit is atomic**, and a successful one is remembered.

A file that cannot be made is different in one thing: the directories that were made on the
way to it stay.

* `create_failed` — **what is left of a file that could not be made**, and when.
-/

import Workbench.Proofs.Editor.Confinement
import Workbench.Proofs.Files.Chain

namespace Workbench.Editor

open Workbench.Files Workbench.Files.Tree

/-! ### Histories -/

namespace History

variable {κ : Type} [DecidableEq κ] {h rest : History κ} {key : κ} {change : Change}

theorem put_put (key : κ) (first second : List Change) (piles : List (κ × List Change)) :
    put key second (put key first piles) = put key second piles := by
  induction piles with
  | nil => simp [put]
  | cons pile piles ih =>
      obtain ⟨other, old⟩ := pile
      by_cases heq : other = key
      · simp [put, heq]
      · simp [put, heq, ih]

/-- Putting the edits of a file in their own place changes nothing. -/
theorem put_entries {piles : List (κ × List Change)}
    (hne : (⟨piles⟩ : History κ).entries key ≠ []) :
    put key ((⟨piles⟩ : History κ).entries key) piles = piles := by
  induction piles with
  | nil => exact absurd rfl hne
  | cons pile piles ih =>
      obtain ⟨other, old⟩ := pile
      by_cases heq : other = key
      · subst heq
        rw [entries_cons_self, put, if_pos rfl]
      · rw [entries_cons_of_ne heq] at hne ⊢
        rw [put, if_neg heq, ih hne]

/-- **An edit that was taken off and put back** is as it was. -/
theorem push_of_pop? (hpop : h.pop? key = some (change, rest)) : rest.push key change = h := by
  obtain ⟨last, hlast, heq⟩ := Option.map_eq_some_iff.mp hpop
  obtain ⟨rfl, rfl⟩ : last = change ∧ _ = rest := by simpa using heq
  have hne : h.entries key ≠ [] := by
    intro hnil
    simp [hnil] at hlast
  rw [push, entries_put_self, put_put, List.dropLast_append_getLast? _ hlast, put_entries hne]

/-- A history with one more edit is another one. -/
theorem push_ne (h : History κ) (key : κ) (change : Change) : h.push key change ≠ h := by
  intro heq
  have := congrArg (fun h => (h.entries key).length) heq
  simp at this

theorem ne_of_pop? (hpop : h.pop? key = some (change, rest)) : rest ≠ h := by
  rintro rfl
  exact push_ne rest key change (push_of_pop? hpop)

end History

/-! ### Files that cannot be written -/

variable {e : Editor} {desk : Desk} {tree after : Tree} {place : Path} {path content : String}
  {operation : Operation} {fault : Fault}

theorem rewrite_failed (hwf : tree.WellFormed) (hplain : Path.Plain place) {s : String}
    (h : tree.rewrite place s = (some fault, after)) : after = tree := by
  rcases rewrite_cases hwf hplain s with ⟨other, hfail⟩ | ⟨_, _, _, _, _, hdone⟩
  · rw [hfail] at h
    exact (congrArg Prod.snd h).symm
  · rw [hdone] at h
    cases h

theorem restore_failed (hwf : tree.WellFormed) (hplain : Path.Plain place)
    {previous : Option String} (h : restore tree place previous = (some fault, after)) :
    after = tree := by
  cases previous with
  | some text => exact rewrite_failed hwf hplain h
  | none =>
      by_cases hthere : tree.isThere (Path.text place) = true
      · cases hremove : tree.removeFile (Path.text place) with
        | ok without => simp [restore, hthere, hremove] at h
        | error other =>
            simp only [restore, if_pos hthere, hremove] at h
            exact (congrArg Prod.snd h).symm
      · simp [restore, hthere] at h

/-- The names of an accepted place are names of entries, wherever the root of the project
has gone since it was opened. -/
theorem plain_of_accepted (hroot : Path.Plain e.project.root)
    (hres : e.project.resolve tree path = .ok place) : Path.Plain place := by
  obtain ⟨up, real, hr⟩ := Project.resolve_eq_ok_iff.mp hres
  exact hr.plain hroot

/-! ### Requests that write a file back -/

section Requests

variable (hwf : desk.tree.WellFormed) (hroot : Path.Plain e.project.root)

include hwf

/-- An edited text that is written is remembered, and one that is not leaves no trace. -/
theorem commit_failed_iff (hplain : Path.Plain place) (updated : List Char) (first span : Nat) :
    (∃ refusal, (e.commit desk path place operation content updated first span).1 =
        .error refusal) ↔
      (e.commit desk path place operation content updated first span).2 = desk := by
  unfold commit
  cases hrewrite : desk.tree.rewrite place (String.ofList updated) with
  | mk outcome after =>
      cases outcome with
      | some fault =>
          obtain rfl := rewrite_failed hwf hplain hrewrite
          simp
      | none =>
          constructor
          · rintro ⟨refusal, herror⟩
            cases herror
          · intro hsame
            have hhistory : desk.history.push place ⟨some content, operation⟩ = desk.history :=
              congrArg Desk.history hsame
            exact absurd hhistory (History.push_ne _ _ _)

include hroot

/-- An edit that is undone is forgotten, and one that cannot be undone stays the newest. -/
theorem undo_failed_iff (path : String) :
    (∃ refusal, (e.undo desk path).1 = .error refusal) ↔ (e.undo desk path).2 = desk := by
  unfold undo
  split
  · simp
  · next place hres =>
      have hplain := plain_of_accepted hroot (resolve_eq_ok_iff.mp hres)
      split
      · simp
      · next change history hpop =>
          cases hrestore : restore desk.tree place change.previous with
          | mk outcome after =>
              cases outcome with
              | some fault =>
                  obtain rfl := restore_failed hwf hplain hrestore
                  simp [History.push_of_pop? hpop]
              | none =>
                  constructor
                  · rintro ⟨refusal, herror⟩
                    cases herror
                  · intro hsame
                    have hhistory : history = desk.history := congrArg Desk.history hsame
                    exact absurd hhistory (History.ne_of_pop? hpop)

end Requests

/-- **A failing edit is atomic.** A request to replace, insert or undo fails exactly when all
is as before: every file, directory and link of the tree with its contents and permissions,
and the edits of every path that can be undone. The tree is any that a file system can be in,
whatever became of it since the project was opened, and so is the history. -/
theorem failing_edit_atomic (wellFormed : desk.tree.WellFormed)
    (root : Path.Plain e.project.root) (request : Request) (writes : request.writesBack) :
    (∃ refusal, (e.answer desk request).1 = .error refusal) ↔
      (e.answer desk request).2 = desk := by
  cases request with
  | view => cases writes
  | viewDirectory => cases writes
  | create => cases writes
  | replace path old new =>
      simp only [answer, replace]
      split
      · simp
      · next hfound =>
          obtain ⟨hres, -⟩ := findReplacement_ok hfound
          exact commit_failed_iff wellFormed (plain_of_accepted root hres) ..
  | insert path line text =>
      simp only [answer, insert]
      split
      · simp
      · next hfound =>
          obtain ⟨hres, -⟩ := findInsertion_ok hfound
          exact commit_failed_iff wellFormed (plain_of_accepted root hres) ..
  | undo path => exact undo_failed_iff wellFormed root path

/-- A file that was edited twice and has since been replaced by a directory with something
in it. -/
def strayedDesk : Desk :=
  ⟨⟨[(["p"], .directory 0o755), (["p", "a"], .directory 0o700),
      (["p", "a", "b"], .file 0o644 (.text "in the way\n"))], []⟩,
    ⟨[(["p", "a"], [⟨some "one\n", .replace⟩, ⟨some "two\n", .insert⟩])]⟩⟩

theorem failing_edit_atomic_strayedDesk :
    strayedDesk.tree.WellFormed ∧ Path.Plain sampleEditor.project.root ∧
    (Request.undo "a").writesBack ∧
    (sampleEditor.answer strayedDesk (.undo "a")).1 = .error (.access "a" .isDirectory) ∧
    (sampleEditor.answer strayedDesk (.undo "a")).2 = strayedDesk := by
  have hwf : strayedDesk.tree.WellFormed := by decide
  have hroot : Path.Plain sampleEditor.project.root := by decide
  have hfails : (sampleEditor.answer strayedDesk (.undo "a")).1 =
      .error (.access "a" .isDirectory) := by decide +kernel
  exact ⟨hwf, hroot, rfl, hfails,
    (failing_edit_atomic hwf hroot (.undo "a") rfl).mp ⟨_, hfails⟩⟩

/-! ### Making a file -/

section Creating

variable {dir up base : Path} {next name text : String} {more : List String} {refusal : Refusal}

/-- Where directories are missing on the way to a file that cannot be made, they are made as
far as their names are short enough, and stay. -/
theorem create_of_missing (hwf : desk.tree.WellFormed) (hplain : Path.Plain (dir ++ [name]))
    (hres : e.resolve desk.tree path = .ok (dir ++ [name]))
    (hno : desk.tree.isThere (Path.text (dir ++ [name])) = false)
    (hdir : dir = up ++ next :: more) (hmissing : desk.tree.Missing up base next more)
    (hfailed : (e.create desk path text).1 = .error refusal) :
    (e.create desk path text).2 =
        ⟨desk.tree.chain base (next :: more.takeWhile Path.isShort), desk.history⟩ ∧
      (desk.tree.entries.length + more.length + 1 < 16 ^ 32 → ¬ Rewritable (dir ++ [name])) := by
  obtain ⟨hmade, hfresh⟩ :=
    hmissing.makeDirectories_eq hwf (hdir ▸ (Path.plain_append.mp hplain).1)
  rw [← hdir] at hmade
  simp only [create, hres, hno, List.dropLast_concat, hmade, Bool.false_eq_true, if_false]
    at hfailed ⊢
  by_cases hall : more.all Path.isShort = true
  · have hwhole := List.takeWhile_eq_self_iff.mpr (List.all_eq_true.mp hall)
    rw [hwhole, ← hdir] at hfresh
    simp only [hall, if_true, hwhole] at hfailed ⊢
    cases hrewrite : (desk.tree.chain base (next :: more)).rewrite (dir ++ [name]) text with
    | mk outcome after =>
        cases outcome with
        | none => simp [hrewrite] at hfailed
        | some fault =>
            obtain rfl := rewrite_failed hfresh.wellFormed hplain hrewrite
            refine ⟨rfl, fun hroom hr => ?_⟩
            have hlength := length_chain_le desk.tree base (next :: more)
            rw [List.length_cons] at hlength
            have hdone := hfresh.rewrite_eq hr (by omega) text
            simp [hrewrite] at hdone
  · simp only [hall]
    refine ⟨rfl, fun _ hr => hall (List.all_eq_true.mpr fun other mem => ?_)⟩
    exact Path.isShort_iff.mpr (hr.short other (by simp [hdir, mem]))

/-- Where no directory has been made for the file, all is as before. -/
theorem create_of_same (hwf : desk.tree.WellFormed) (hplain : Path.Plain (dir ++ [name]))
    (hres : e.resolve desk.tree path = .ok (dir ++ [name]))
    (hno : desk.tree.isThere (Path.text (dir ++ [name])) = false)
    (hsame : (desk.tree.makeDirectories dir.reverse).2 = desk.tree)
    (hfailed : (e.create desk path text).1 = .error refusal) :
    (e.create desk path text).2 = desk := by
  cases hmakes : desk.tree.makeDirectories dir.reverse with
  | mk outcome ready =>
      obtain rfl : ready = desk.tree := by rwa [hmakes] at hsame
      cases outcome with
      | some stop => simp [create, hres, hno, hmakes]
      | none =>
          cases hrewrite : desk.tree.rewrite (dir ++ [name]) text with
          | mk outcome after =>
              cases outcome with
              | none => simp [create, hres, hno, hmakes, hrewrite] at hfailed
              | some stop =>
                  obtain rfl := rewrite_failed hwf hplain hrewrite
                  simp [create, hres, hno, hmakes, hrewrite]

/-- Where no directory is missing, all is as before. -/
theorem create_of_not_missing (hwf : desk.tree.WellFormed) (root : Path.Plain e.project.root)
    (hnone : ∀ up base next more name,
      e.resolve desk.tree path = .ok (up ++ next :: more ++ [name]) →
        ¬ desk.tree.Missing up base next more)
    (hfailed : (e.create desk path text).1 = .error refusal) :
    (e.create desk path text).2 = desk := by
  cases hres : e.resolve desk.tree path with
  | error stop => simp [create, hres]
  | ok place =>
      obtain ⟨real, found, hr⟩ := Project.resolve_eq_ok_iff.mp (resolve_eq_ok_iff.mp hres)
      have hplain := hr.plain root
      cases hthere : desk.tree.isThere (Path.text place) with
      | true => simp [create, hres, hthere]
      | false =>
          rcases List.eq_nil_or_concat' place with rfl | ⟨dir, name, rfl⟩
          · simp [isThere_iff.mpr ⟨_, _, desk.tree.find_root⟩] at hthere
          rcases makeDirectories_cases hwf (Path.plain_append.mp hplain).1 with
            hsame | ⟨up, base, next, more, rfl, hmissing⟩
          · exact create_of_same hwf hplain hres hthere hsame hfailed
          · exact absurd hmissing (hnone up base next more name hres)

/-- A file that was made has a path whose names, that of its temporary file and whose
written form are within the limits. -/
theorem rewritable_of_create {said : String} {place : Path} (hwf : desk.tree.WellFormed)
    (hplain : Path.Plain place) (hres : e.resolve desk.tree path = .ok place)
    (hdone : (e.create desk path text).1 = .ok said) : Rewritable place := by
  have hne : place ≠ [] := by
    rintro rfl
    simp [create, hres, isThere_iff.mpr ⟨_, _, desk.tree.find_root⟩] at hdone
  cases hmake : desk.tree.makeDirectories place.dropLast.reverse with
  | mk outcome ready =>
      have hready := (makeDirectories_grown_anywhere hwf hplain.dropLast hmake).wellFormed hwf
      simp only [create, hres, hmake] at hdone
      split at hdone
      · cases hdone
      · cases outcome with
        | some fault => cases hdone
        | none =>
            rcases rewrite_cases hready hplain text with ⟨fault, hfail⟩ | ⟨base, _, hw, hfind, -⟩
            · simp [hfail] at hdone
            · exact rewritable_of_written hplain hne hw hfind

/-- A path with two missing directories, and a name that no file can have. -/
def zeroPath : String := "new/dir/\x00"

theorem create_zeroPath_eq :
    sampleEditor.create ⟨sampleTree, ⟨[]⟩⟩ zeroPath "x" =
      (.error (.access zeroPath .zeroInName),
        ⟨sampleTree.chain ["p"] ["new", "dir"], ⟨[]⟩⟩) := by
  decide +kernel

end Creating

end Workbench.Editor
