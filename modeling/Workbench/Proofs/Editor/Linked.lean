/-
# Edits behind a link

An edit reads the file to which its path leads, and looks at its permissions, but puts the
new text where the last name of the path stands. When that is a link, the edit does not
reach the file: the link gives way to another file with the edited text, and undoing the
edit leaves that one there with the old text.

* `Edits` — what a request makes of a text.
* `resolve_put` — a path is accepted as before when its link gave way to a file.
* `edit_behind_link` — **what an edit does and what undoing it leaves**, wherever the last
  name of the path leads: all is as before only when that is no link.
-/

import Workbench.Proofs.Editor.Failing
import Workbench.Proofs.Files.Links

namespace Workbench.Editor

open Workbench.Files Workbench.Files.Tree Workbench.Text

variable {e : Editor} {desk : Desk} {tree : Tree} {project : Project} {place link file : Path}
  {path content said : String} {operation : Operation} {entry : Entry} {mode : Nat}
  {request : Request} {updated : List Char}

/-! ### Edited texts -/

/-- A request edits the text of a file. -/
def Request.splices : Request → Bool
  | replace .. => true
  | insert .. => true
  | _ => false

/-- What a request makes of the text of a file. -/
inductive Edits (content : String) : Request → List Char → Prop where
  | replaced {path old new : String} {position : Nat} :
      occurrences old.toList content.toList = [position] →
      Edits content (.replace path old new)
        (replaceAt content.toList old.toList new.toList position)
  | inserted {path : String} {line : Int} {text : String} :
      0 ≤ line → line ≤ (Lines.split content.toList).length →
      Edits content (.insert path line text)
        (insertLines content.toList line.toNat text.toList)

theorem uniqueOccurrence_eq_ok_iff {old : String} {position : Nat} :
    uniqueOccurrence path old content = .ok position ↔
      occurrences old.toList content.toList = [position] := by
  unfold uniqueOccurrence
  split
  · next h => simp [h]
  · next only h => simp [h]
  · next hnil hmany =>
      constructor
      · intro h
        cases h
      · intro h
        exact absurd h (hmany position)

theorem occurrences_of_findReplacement {old new : String} {position : Nat}
    (h : e.findReplacement tree path old new = .ok (place, content, position)) :
    occurrences old.toList content.toList = [position] := by
  simp only [findReplacement, Attempt.bind_eq_ok_iff] at h
  obtain ⟨found, -, h⟩ := h
  split at h
  · simp at h
  · split at h
    · simp at h
    · simp only [Attempt.bind_eq_ok_iff] at h
      obtain ⟨read, -, only, honly, h⟩ := h
      obtain ⟨-, rfl, rfl⟩ : found = place ∧ read = content ∧ only = position := by simpa using h
      exact uniqueOccurrence_eq_ok_iff.mp honly

theorem line_of_findInsertion {line : Int} {after : Nat}
    (h : e.findInsertion tree path line = .ok (place, content, after)) :
    line = after ∧ after ≤ (Lines.split content.toList).length := by
  simp only [findInsertion, Attempt.bind_eq_ok_iff] at h
  obtain ⟨found, -, read, -, h⟩ := h
  split at h
  · simp at h
  · next hrange =>
      obtain ⟨-, rfl, rfl⟩ : found = place ∧ read = content ∧ line.toNat = after := by
        simpa using h
      omega

theorem edits_of_findReplacement {old new : String} {position : Nat}
    (h : e.findReplacement tree path old new = .ok (place, content, position)) :
    Edits content (.replace path old new)
      (replaceAt content.toList old.toList new.toList position) :=
  .replaced (occurrences_of_findReplacement h)

theorem edits_of_findInsertion {line : Int} {after : Nat} (text : String)
    (h : e.findInsertion tree path line = .ok (place, content, after)) :
    Edits content (.insert path line text)
      (insertLines content.toList after text.toList) := by
  obtain ⟨rfl, hle⟩ := line_of_findInsertion h
  exact .inserted (Int.natCast_nonneg _) (Int.ofNat_le.mpr hle)

/-- An edit that succeeded has found what it is about and written what it made of it. -/
theorem edit_cases (hsplices : request.splices) (hdone : (e.answer desk request).1 = .ok said) :
    (∃ path old new place content position, request = .replace path old new ∧
      e.findReplacement desk.tree path old new = .ok (place, content, position) ∧
      e.answer desk request = e.commit desk path place .replace content
        (replaceAt content.toList old.toList new.toList position)
        (lineAt content.toList position - 1) (Lines.newlines new.toList + 1)) ∨
    (∃ path line text place content after, request = .insert path line text ∧
      e.findInsertion desk.tree path line = .ok (place, content, after) ∧
      e.answer desk request = e.commit desk path place .insert content
        (insertLines content.toList after text.toList) after
        (max (Lines.split text.toList).length 1)) := by
  cases request with
  | view => cases hsplices
  | viewDirectory => cases hsplices
  | create => cases hsplices
  | undo => cases hsplices
  | replace path old new =>
      left
      simp only [answer, replace] at hdone ⊢
      split at hdone
      · cases hdone
      · next place content position hfound =>
          exact ⟨path, old, new, place, content, position, rfl, hfound, rfl⟩
  | insert path line text =>
      right
      simp only [answer, insert] at hdone ⊢
      split at hdone
      · cases hdone
      · next place content after hfound =>
          exact ⟨path, line, text, place, content, after, rfl, hfound, rfl⟩

/-- An edit that succeeded has read a text and written what it made of it. -/
theorem exists_commit (hsplices : request.splices) (hdone : (e.answer desk request).1 = .ok said) :
    ∃ place content updated operation first span,
      e.resolve desk.tree request.path = .ok place ∧
      desk.tree.readText (Path.text place) = .ok content ∧ Edits content request updated ∧
      e.answer desk request =
        e.commit desk request.path place operation content updated first span := by
  rcases edit_cases hsplices hdone with
    ⟨path, old, new, place, content, position, rfl, hfound, hanswer⟩ |
    ⟨path, line, text, place, content, after, rfl, hfound, hanswer⟩
  · obtain ⟨hres, hread⟩ := findReplacement_ok hfound
    exact ⟨place, content, _, _, _, _, resolve_eq_ok_iff.mpr hres, hread,
      edits_of_findReplacement hfound, hanswer⟩
  · obtain ⟨hres, hread⟩ := findInsertion_ok hfound
    exact ⟨place, content, _, _, _, _, resolve_eq_ok_iff.mpr hres, hread,
      edits_of_findInsertion text hfound, hanswer⟩

theorem commit_ok {first span : Nat}
    (hdone : (e.commit desk path place operation content updated first span).1 = .ok said) :
    ∃ after, desk.tree.rewrite place (String.ofList updated) = (none, after) ∧
      (e.commit desk path place operation content updated first span).2 =
        ⟨after, desk.history.push place ⟨some content, operation⟩⟩ := by
  unfold commit at hdone ⊢
  cases hrewrite : desk.tree.rewrite place (String.ofList updated) with
  | mk outcome after =>
      cases outcome with
      | some fault => simp [hrewrite] at hdone
      | none => exact ⟨after, rfl, rfl⟩

/-! ### Histories -/

namespace History

variable {κ : Type} [DecidableEq κ]

/-- The edit that was remembered last is taken off first. -/
theorem exists_pop?_push (h : History κ) (key : κ) (change : Change) :
    ∃ rest, (h.push key change).pop? key = some (change, rest) ∧
      ∀ other, rest.entries other = h.entries other := by
  cases hpop : (h.push key change).pop? key with
  | none =>
      have hnil := pop?_eq_none_iff.mp hpop
      simp at hnil
  | some popped =>
      obtain ⟨last, rest⟩ := popped
      have hentries := entries_of_pop? hpop
      have hkey := hentries key
      rw [entries_push_self, if_pos rfl] at hkey
      obtain ⟨hsame, hlast⟩ := List.append_inj' hkey rfl
      obtain rfl : change = last := by simpa using hlast
      refine ⟨rest, rfl, fun other => ?_⟩
      by_cases hother : other = key
      · rw [hother, hsame]
      · have hrest := hentries other
        rw [entries_push_of_ne _ hother, if_neg hother, List.append_nil] at hrest
        exact hrest.symm

end History

/-! ### Undoing the edit -/

/-- A path is accepted as before when its link gave way to a file in the project. -/
theorem resolve_put {text : String} (h : tree.Behind place link file entry mode text)
    (hres : project.resolve tree path = .ok place) (hin : project.root <+: link) (newMode : Nat)
    (new : String) :
    project.resolve (tree.put link (.file newMode (.text new))) path = .ok place := by
  obtain ⟨up, real, hr⟩ := Project.resolve_eq_ok_iff.mp hres
  refine Project.resolve_eq_ok_iff.mpr ⟨place, link, hr.spelled, hr.below, ?_, fun _ => hin⟩
  exact ⟨List.prefix_refl _, ⟨_, (h.put newMode new).leads⟩,
    fun other hother _ => hother⟩

/-- The edit behind a link that was remembered last is undone: the file that took the place of
the link gets the old text. -/
theorem undo_behind (h : desk.tree.Behind place link file entry mode content)
    (hres : e.resolve desk.tree path = .ok place) (hin : e.project.root <+: link) {first : String}
    {after : Tree} (hdone : desk.tree.rewrite place first = (none, after)) :
    ∃ rest, (∀ other, rest.entries other = desk.history.entries other) ∧
      e.undo ⟨after, desk.history.push place ⟨some content, operation⟩⟩ path =
        (.ok (e.undoneText place (some content)),
          ⟨desk.tree.put link (.file mode (.text content)), rest⟩) := by
  obtain ⟨rest, hpop, hrest⟩ :=
    History.exists_pop?_push desk.history place ⟨some content, operation⟩
  have hresolved : e.resolve after path = .ok place := by
    rw [(h.rewrite_eq hdone).1]
    exact resolve_eq_ok_iff.mpr (resolve_put h (resolve_eq_ok_iff.mp hres) hin _ _)
  refine ⟨rest, hrest, ?_⟩
  simp only [undo, hresolved, hpop, restore, h.rewrite_again hdone content]

/-- **What an edit does and what undoing it leaves.** The path leads to a file, and the last
name of it stands for an entry in the project. The edited text is put there with the
permissions of the file, and undoing puts the old text there; the history is as before, but
the tree only when the entry was the file itself. When it was a link, that is gone, and the
file to which it led never changed. -/
theorem edit_behind_link (behind : desk.tree.Behind place link file entry mode content)
    (accepted : e.resolve desk.tree request.path = .ok place) (inside : e.project.root <+: link)
    (splices : request.splices) (done : (e.answer desk request).1 = .ok said) :
    ∃ updated undone edited final, Edits content request updated ∧
      (e.answer desk request).2 = edited ∧
      edited.tree = desk.tree.put link (.file mode (.text (String.ofList updated))) ∧
      edited.tree.readText (Path.text place) = .ok (String.ofList updated) ∧
      e.undo edited request.path = (.ok undone, final) ∧
      final.tree = desk.tree.put link (.file mode (.text content)) ∧
      (∀ other, final.history.entries other = desk.history.entries other) ∧
      (final.tree = desk.tree ↔ link = file) ∧
      (link ≠ file → (∃ target, desk.tree.get? link = some (.link target)) ∧
        edited.tree.get? file = desk.tree.get? file ∧
        final.tree.get? file = desk.tree.get? file) := by
  obtain ⟨found, read, updated, operation, first, span, hres, hread, hedits, hanswer⟩ :=
    exists_commit splices done
  obtain rfl : found = place := by simpa [accepted] using hres.symm
  obtain ⟨_, _, hfile⟩ := readText_eq_ok_iff.mp hread
  obtain ⟨-, -, rfl⟩ : file = _ ∧ mode = _ ∧ content = read := by
    simpa [behind.leads] using hfile
  rw [hanswer] at done
  obtain ⟨after, hrewrite, hafter⟩ := commit_ok done
  obtain ⟨rest, hrest, hundo⟩ := undo_behind behind accepted inside hrewrite
  obtain ⟨rfl, -⟩ := behind.rewrite_eq hrewrite
  refine ⟨updated, _, _, _, hedits, by rw [hanswer, hafter], rfl, ?_, hundo, rfl, hrest, ?_, ?_⟩
  · exact readText_eq_ok_iff.mpr ⟨link, mode, (behind.put mode _).leads⟩
  · constructor
    · intro hsame
      have hlink := congrArg (fun tree => tree.get? link) hsame
      rcases behind.link_or_file with ⟨target, rfl⟩ | ⟨heq, -⟩
      · simp [get?_put_self _ behind.link_ne_nil, behind.get?_link] at hlink
      · exact heq
    · rintro rfl
      exact put_self behind.link_ne_nil behind.get?_file
  · intro hne
    have hother (new : Entry) : (desk.tree.put link new).get? file = desk.tree.get? file :=
      get?_put_of_ne desk.tree (Ne.symm hne) new
    rcases behind.link_or_file with ⟨target, rfl⟩ | ⟨heq, -⟩
    · exact ⟨⟨target, behind.get?_link⟩, hother _, hother _⟩
    · exact absurd heq hne

/-- A project with a file and a link to it. -/
def aliasDesk : Desk :=
  ⟨⟨[(["p"], .directory 0o755), (["p", "t"], .file 0o644 (.text "one\n")),
    (["p", "l"], .link "t")], []⟩, .empty⟩

/-- An edit by way of the link replaces the link, and undoing it does not bring it back. -/
theorem replace_aliasDesk_link :
    aliasDesk.tree.WellFormed ∧
    aliasDesk.tree.find true (Path.text ["p", "l"]) =
      .ok ⟨["p", "t"], some (.file 0o644 (.text "one\n"))⟩ ∧
    (sampleEditor.answer aliasDesk (.replace "l" "one" "two")).2.tree =
      aliasDesk.tree.put ["p", "l"] (.file 0o644 (.text "two\n")) ∧
    (sampleEditor.run aliasDesk [.replace "l" "one" "two", .undo "l"]).tree =
      aliasDesk.tree.put ["p", "l"] (.file 0o644 (.text "one\n")) ∧
    aliasDesk.tree.get? ["p", "l"] = some (.link "t") := by
  decide +kernel

theorem edit_behind_aliasDesk_link :
    aliasDesk.tree.Behind ["p", "l"] ["p", "l"] ["p", "t"] (.link "t") 0o644 "one\n" ∧
    sampleEditor.resolve aliasDesk.tree (Request.replace "l" "one" "two").path =
      .ok ["p", "l"] ∧
    sampleEditor.project.root <+: ["p", "l"] ∧ (Request.replace "l" "one" "two").splices ∧
    ∃ said, (sampleEditor.answer aliasDesk (.replace "l" "one" "two")).1 = .ok said ∧
      ∃ undone edited final,
        (sampleEditor.answer aliasDesk (.replace "l" "one" "two")).2 = edited ∧
        sampleEditor.undo edited "l" = (.ok undone, final) ∧ final.tree ≠ aliasDesk.tree ∧
        edited.tree.get? ["p", "t"] = aliasDesk.tree.get? ["p", "t"] := by
  have hbehind : aliasDesk.tree.Behind ["p", "l"] ["p", "l"] ["p", "t"] (.link "t") 0o644 "one\n" :=
    ⟨by decide, by decide, by decide +kernel, by decide +kernel⟩
  have hres : sampleEditor.resolve aliasDesk.tree (Request.replace "l" "one" "two").path =
      .ok ["p", "l"] := by decide +kernel
  have hin : sampleEditor.project.root <+: ["p", "l"] := by decide
  have hdone : (sampleEditor.answer aliasDesk (.replace "l" "one" "two")).1.isOk := by
    decide +kernel
  cases hsaid : (sampleEditor.answer aliasDesk (.replace "l" "one" "two")).1 with
  | error refusal =>
      rw [hsaid] at hdone
      cases hdone
  | ok said =>
      obtain ⟨_, undone, edited, final, -, hedited, -, -, hundo, -, -, hsame, hlink⟩ :=
        edit_behind_link hbehind hres hin rfl hsaid
      refine ⟨hbehind, hres, hin, rfl, said, rfl, undone, edited, final, hedited, hundo, ?_, ?_⟩
      · exact fun heq => absurd (hsame.mp heq) (by decide)
      · exact (hlink (by decide)).2.1

end Workbench.Editor
