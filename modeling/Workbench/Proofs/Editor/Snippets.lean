/-
# What confirms an edit

An edit that was made is confirmed by the numbered lines around it, as the file is now. The
first of its lines is told by the newlines before the new text, whether that replaced another
or was put in after a line; the last is counted in the new text alone, by its newlines for the
one and by its lines for the other. Both counts reach the line of the last byte that is new,
and go at most one line beyond it.

* `Puts` — where the new text of a request stands in the edited text.
* `Shows` — which lines of a text are shown around a stretch of it.
* `shows_window` — **the lines around a stretch** are shown by a window that begins where it
  does and goes on at least to its last line.
* `snippet_truthful` — **what confirms an edit** is true of the file.
-/

import Workbench.Proofs.Editor.Inserting
import Workbench.Proofs.Editor.Limits
import Workbench.Proofs.Editor.Replacing
import Workbench.Proofs.Text.Locating

namespace Workbench.Editor

open Workbench.Files Workbench.Files.Tree Workbench.Text Workbench.Text.Lines

variable {content : String} {request : Request} {s before new rest text : List Char}
  {above span : Nat}

/-! ### Where the new text stands -/

/-- The new text of a request, and what stands before and after it in the edited text. A
replacement puts it where the old text occurs, and an insertion after whole lines. -/
inductive Puts (content : String) : Request → List Char → List Char → List Char → Prop where
  | replaced {path old new : String} {position : Nat} {rest : List Char} :
      occurrences old.toList content.toList = [position] →
      content.toList = content.toList.take position ++ old.toList ++ rest →
      Puts content (.replace path old new) (content.toList.take position) new.toList rest
  | inserted {path text : String} {above : Nat} {rest : List Char} :
      above ≤ (split content.toList).length →
      rest = ((split content.toList).drop above).flatten →
      Puts content (.insert path above text) (closeLine ((split content.toList).take above).flatten)
        text.toList (joint content.toList text.toList rest ++ rest)

/-- The lines of a text, from one to before another, that are shown around a stretch of it. -/
structure Shows (text before new : List Char) (context start stop : Nat) : Prop where
  ordered : start ≤ stop
  within : stop ≤ (split text).length
  /-- The edit begins on the line after the newlines before it. -/
  begins : byteLength before < byteLength text →
    HoldsByte text (newlines before) (byteLength before)
  /-- No more lines than told are shown before the first line of the edit. -/
  above : newlines before ≤ start + context
  /-- The first line of the edit is shown, and the lines after it, as many as told. -/
  edit : ∀ line, newlines before ≤ line → line ≤ newlines before + context →
    line < (split text).length → start ≤ line ∧ line < stop
  /-- Every line that holds a new byte is shown, and the lines after it, as many as told. -/
  below : ∀ k b, byteLength before ≤ b → b < byteLength (before ++ new) → HoldsByte text k b →
    ∀ line, k ≤ line → line ≤ k + context → line < (split text).length → start ≤ line ∧ line < stop

/-- **The lines around a stretch** are shown by a window that begins with the first of its
lines and has room for the last of them. -/
theorem shows_window (htext : text = before ++ new ++ rest)
    (hspan : newlines (before ++ new.dropLast) < newlines before + max span 1) (context : Nat) :
    Shows text before new context (windowStart (newlines before) context (split text).length)
      (windowStop (newlines before) span context (split text).length) := by
  have hshown {line : Nat} (hfirst : newlines before ≤ line)
      (hlast : line ≤ newlines (before ++ new.dropLast) + context)
      (hline : line < (split text).length) :
      windowStart (newlines before) context (split text).length ≤ line ∧
        line < windowStop (newlines before) span context (split text).length := by
    unfold windowStart windowStop
    omega
  have hgrows : newlines before ≤ newlines (before ++ new.dropLast) := by
    rw [newlines_append]
    exact Nat.le_add_right _ _
  refine ⟨?_, Nat.min_le_right .., ?_, ?_, ?_, ?_⟩
  · unfold windowStart windowStop
    omega
  · intro hmore
    rw [htext, List.append_assoc] at hmore ⊢
    exact holdsByte_of_lt hmore
  · have htotal : newlines before ≤ (split text).length := by
      refine Nat.le_trans ?_ (newlines_le_length_split text)
      rw [htext, List.append_assoc, newlines_append]
      exact Nat.le_add_right _ _
    unfold windowStart
    omega
  · intro line hfirst hlast hline
    exact hshown hfirst (by omega) hline
  · intro k b hfrom hto hholds line hline hlast hlength
    -- A byte of the new text is not after the last character of it.
    obtain ⟨init, last, rfl⟩ : ∃ init last, new = init ++ [last] := by
      refine (List.eq_nil_or_concat' new).resolve_left ?_
      rintro rfl
      rw [List.append_nil] at hto
      omega
    rw [List.dropLast_concat] at hshown
    have hk : newlines before ≤ k := by
      rw [htext, List.append_assoc] at hholds
      exact hholds.newlines_le hfrom
    have hk' : k ≤ newlines (before ++ init) := by
      rw [htext, ← List.append_assoc, List.append_assoc _ [last] rest] at hholds
      exact hholds.le_newlines (by rwa [List.append_assoc])
    exact hshown (by omega) (by omega) hlength

/-- Lines that are ended are as many as were taken. -/
theorem newlines_closeLine (h : above ≤ (split s).length) :
    newlines (closeLine ((split s).take above).flatten) = above := by
  rw [← length_split_of_closed (closed_closeLine _), ← length_bodies, bodies_closeLine,
    bodies_flatten_take, List.length_take, length_bodies]
  exact Nat.min_eq_left h

/-- The last line of a text that is put in is at most as many lines after the first as it has
newlines. -/
theorem newlines_of_replaced (before new : List Char) :
    newlines (before ++ new.dropLast) < newlines before + max (newlines new + 1) 1 := by
  have hle := newlines_dropLast_le new
  rw [newlines_append]
  omega

/-- The last line of a text that is put in is as many lines after the first as it has lines
but one. -/
theorem newlines_of_inserted (before new : List Char) :
    newlines (before ++ new.dropLast) <
      newlines before + max (max (split new).length 1) 1 := by
  rw [newlines_append]
  by_cases hnil : new = []
  · subst hnil
    simp [split, newlines]
  · rw [length_split hnil]
    omega

/-! ### The answer to an edit -/

variable {e : Editor} {desk after : Desk} {place : Path} {said : String}

/-- An edit that succeeded has written a text in which the new one stands, and shows the lines
from its first on, at least to its last. -/
theorem exists_puts (hsplices : request.splices)
    (hdone : (e.answer desk request).1 = .ok said) :
    ∃ place content before new rest operation span,
      e.resolve desk.tree request.path = .ok place ∧
      desk.tree.readText (Path.text place) = .ok content ∧
      Puts content request before new rest ∧
      newlines (before ++ new.dropLast) < newlines before + max span 1 ∧
      e.answer desk request = e.commit desk request.path place operation content
        (before ++ new ++ rest) (newlines before) span := by
  rcases edit_cases hsplices hdone with
    ⟨path, old, new, place, content, position, rfl, hfound, hanswer⟩ |
    ⟨path, line, text, place, content, above, rfl, hfound, hanswer⟩
  · obtain ⟨hres, hread⟩ := findReplacement_ok hfound
    have honly := occurrences_of_findReplacement hfound
    obtain ⟨rest, hrest⟩ := prefix_of_mem_occurrences (honly ▸ List.mem_singleton_self _)
    have hdrop : content.toList.drop (position + old.toList.length) = rest := by
      rw [← List.drop_drop, ← hrest, List.drop_left]
    refine ⟨place, content, _, new.toList, rest, .replace, _, resolve_eq_ok_iff.mpr hres, hread,
      .replaced honly ?_, newlines_of_replaced _ _, ?_⟩
    · rw [List.append_assoc, hrest, List.take_append_drop]
    · rw [hanswer, replaceAt, hdrop]
      rfl
  · obtain ⟨hres, hread⟩ := findInsertion_ok hfound
    obtain ⟨rfl, hle⟩ := line_of_findInsertion hfound
    refine ⟨place, content, _, text.toList, _, .insert, _, resolve_eq_ok_iff.mpr hres, hread,
      .inserted hle rfl, newlines_of_inserted _ _, ?_⟩
    rw [hanswer, newlines_closeLine hle, ← List.append_assoc]
    rfl

/-- What stands before the lines in the answer to an edit. -/
def editedHead (e : Editor) (place : Path) : String :=
  "The file " ++ e.project.relative place ++
    " has been edited. Here's the result of running \x60cat -n\x60 on a snippet of " ++
    e.project.relative place ++ ":\n"

/-- What stands after the lines in the answer to an edit. -/
def editedTail : String :=
  "\nReview the changes and make sure they are as expected. Edit the file again if necessary."

/-- The lines shown are lines of the text with their numbers. -/
theorem editedText_eq (e : Editor) (place : Path) (updated : List Char) (first span : Nat) :
    e.editedText place updated first span =
      e.editedHead place ++
        String.ofList (Lines.window updated first span e.limits.snippetContextLines) ++
        editedTail := rfl

/-- **What confirms an edit is true of the file.** When a replacement or an insertion has
succeeded, the file holds a text in which the new one stands. The answer shows consecutive
lines of that text as it is read back, each with its number, counted from 1. Among them is
every line that holds a byte of the new text, and of the lines after each as many as the
editor is told to show, or all; of the lines before the first line of the edit there are no
more than that. -/
theorem snippet_truthful (wellFormed : desk.tree.WellFormed)
    (root : Path.Plain e.project.root) (splices : request.splices)
    (done : e.answer desk request = (.ok said, after)) :
    ∃ place content text before new rest start stop,
      e.resolve desk.tree request.path = .ok place ∧
      desk.tree.readText (Path.text place) = .ok content ∧
      after.tree.readText (Path.text place) = .ok text ∧
      Puts content request before new rest ∧ text.toList = before ++ new ++ rest ∧
      said = e.editedHead place ++
        String.ofList
          (labelled (start + 1) (((split text.toList).take stop).drop start)).flatten ++
        editedTail ∧
      Shows text.toList before new e.limits.snippetContextLines start stop := by
  have hdone : (e.answer desk request).1 = .ok said := congrArg Prod.fst done
  obtain ⟨place, content, before, new, rest, operation, span, hres, hread, hputs, hspan, hcommit⟩ :=
    exists_puts splices hdone
  rw [hcommit] at hdone done
  obtain ⟨tree, hrewrite, hafter⟩ := commit_ok hdone
  obtain ⟨up, real, hr⟩ := Project.resolve_eq_ok_iff.mp (resolve_eq_ok_iff.mp hres)
  obtain ⟨link, file, entry, mode, behind⟩ :=
    exists_behind wellFormed (hr.plain root) hread (congrArg Prod.fst hrewrite)
  obtain ⟨rfl, -⟩ := behind.rewrite_eq hrewrite
  have hsaid := output_of_commit done
  have htext : (String.ofList (before ++ new ++ rest)).toList = before ++ new ++ rest :=
    String.toList_ofList
  refine ⟨place, content, _, before, new, rest, _, _, hres, hread, ?_, hputs, htext, ?_,
    htext ▸ shows_window rfl hspan _⟩
  · obtain rfl : after = _ := (congrArg Prod.snd done).symm.trans hafter
    exact readText_eq_ok_iff.mpr ⟨link, mode, (behind.put mode _).leads⟩
  · rw [hsaid, editedText_eq, htext, ← numberFrom_eq]
    rfl

/-- A line is put in after the last, which had no newline. -/
theorem snippet_truthful_draftDesk :
    draftDesk.tree.WellFormed ∧ Path.Plain sampleEditor.project.root ∧
    (Request.insert "a" 2 "drie").splices ∧
    ∃ said after, sampleEditor.answer draftDesk (.insert "a" 2 "drie") = (.ok said, after) ∧
      after.tree.readText (Path.text ["p", "a"]) = .ok "één\ntwee\ndrie" ∧
      said = sampleEditor.editedHead ["p", "a"] ++ "     1\téén\n     2\ttwee\n     3\tdrie" ++
        editedTail ∧
      ∃ before new rest start stop, "één\ntwee\ndrie".toList = before ++ new ++ rest ∧
        Puts "één\ntwee" (.insert "a" 2 "drie") before new rest ∧
        Shows "één\ntwee\ndrie".toList before new 4 start stop := by
  have hwf : draftDesk.tree.WellFormed := by decide
  have hroot : Path.Plain sampleEditor.project.root := by decide
  have hdone : sampleEditor.answer draftDesk (.insert "a" 2 "drie") =
      (.ok (sampleEditor.editedHead ["p", "a"] ++ "     1\téén\n     2\ttwee\n     3\tdrie" ++
        editedTail),
        ⟨draftDesk.tree.put ["p", "a"] (.file 0o600 (.text "één\ntwee\ndrie")),
          ⟨[(["p", "a"], [⟨some "één\ntwee", .insert⟩])]⟩⟩) := by
    decide +kernel
  obtain ⟨place, content, text, before, new, rest, start, stop, hres, hread, hafter, hputs, htext,
    -, hshows⟩ := snippet_truthful hwf hroot rfl hdone
  obtain rfl : ["p", "a"] = place := by
    have h : sampleEditor.resolve draftDesk.tree "a" = .ok ["p", "a"] := by decide +kernel
    exact Except.ok.inj (h.symm.trans hres)
  obtain rfl : "één\ntwee" = content := by
    have h : draftDesk.tree.readText (Path.text ["p", "a"]) = .ok "één\ntwee" := by decide +kernel
    exact Except.ok.inj (h.symm.trans hread)
  obtain rfl : "één\ntwee\ndrie" = text := by
    have h : (draftDesk.tree.put ["p", "a"] (.file 0o600 (.text "één\ntwee\ndrie"))).readText
        (Path.text ["p", "a"]) = .ok "één\ntwee\ndrie" := by decide +kernel
    exact Except.ok.inj (h.symm.trans hafter)
  exact ⟨hwf, hroot, rfl, _, _, hdone, hafter, rfl, before, new, rest, start, stop, htext, hputs,
    hshows⟩

end Workbench.Editor
