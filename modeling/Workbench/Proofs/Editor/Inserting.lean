/-
# Whole lines are put in

Text that is put in after a line makes lines of its own: the line before it is ended with a
newline where it had none, and so is the text where anything, or an end of the file without
a line, comes after it. So the lines of the file, without their newlines, are those before,
those of the text and those after it, and the file ends as it did or with a newline.

* `bodies_insertLines` — the lines of a text in which others were put in.
* `getLast?_insertLines`, `getLast?_insertLines_of_newline` — how such a text ends.
* `insert_splices_lines` — **what an insertion does**, and when it is refused.
-/

import Workbench.Proofs.Editor.Splicing
import Workbench.Proofs.Text.Lines

namespace Workbench.Editor

open Workbench.Files Workbench.Files.Tree Workbench.Text Workbench.Text.Lines

/-! ### Newlines between lines -/

section Texts

variable {s text rest : List Char} {n : Nat}

theorem closed_closeLine (s : List Char) : Closed (closeLine s) := by
  unfold closeLine
  split
  · exact .inr (by simp)
  · next h =>
      by_cases hnil : s = []
      · exact .inl hnil
      · exact .inr (not_not.mp fun hlast => h ⟨hnil, hlast⟩)

/-- Ending the last line makes no other line. -/
theorem bodies_closeLine (s : List Char) : bodies (closeLine s) = bodies s := by
  induction s using lines_induction with
  | empty => rfl
  | last line hne hline =>
      have hclose : closeLine line = line ++ '\n' :: [] :=
        if_pos ⟨hne, fun hlast => hline (List.mem_of_getLast? hlast)⟩
      rw [hclose, bodies_line hline, bodies_last hline hne]
      rfl
  | more line rest hline ih =>
      have hclose : closeLine (line ++ '\n' :: rest) = line ++ '\n' :: closeLine rest := by
        cases rest with
        | nil => simp [closeLine]
        | cons c rest =>
            simp only [closeLine, List.getLast?_append, List.getLast?_cons_cons]
            split <;> simp_all
      rw [hclose, bodies_line hline, bodies_line hline, ih]

/-- A text that is put in has the lines it has, and so has what comes after it. -/
theorem bodies_joint (hne : text ≠ []) (s rest : List Char) :
    bodies (text ++ joint s text rest ++ rest) = bodies text ++ bodies rest := by
  by_cases hlast : text.getLast? = some '\n'
  · have hjoint : joint s text rest = [] := if_neg fun h => h.1 hlast
    rw [hjoint, List.append_nil, bodies_append (.inr hlast)]
  · by_cases hmore : rest ≠ [] ∨ s.getLast? = some '\n'
    · have hjoint : text ++ joint s text rest = closeLine text := by
        rw [joint, if_pos ⟨hlast, hmore⟩, closeLine, if_pos ⟨hne, hlast⟩]
      rw [hjoint, bodies_append (closed_closeLine text), bodies_closeLine]
    · have hjoint : joint s text rest = [] := if_neg fun h => hmore h.2
      obtain rfl : rest = [] := not_not.mp fun h => hmore (.inl h)
      rw [hjoint, List.append_nil, List.append_nil]
      exact (List.append_nil _).symm

/-- **The lines of a text in which others were put in.** -/
theorem bodies_insertLines (s : List Char) (n : Nat) (hne : text ≠ []) :
    bodies (insertLines s n text) = (bodies s).take n ++ bodies text ++ (bodies s).drop n := by
  rw [insertLines, List.append_assoc (closeLine _), List.append_assoc (closeLine _),
    bodies_append (closed_closeLine _), bodies_closeLine, bodies_flatten_take,
    bodies_joint hne, bodies_flatten_drop, List.append_assoc]

/-- With lines after those that were put in, a text ends as it did. -/
theorem getLast?_insertLines (h : n < (split s).length) (text : List Char) :
    (insertLines s n text).getLast? = s.getLast? := by
  have hlast := getLast?_flatten_drop h
  obtain ⟨c, hc⟩ : ∃ c, s.getLast? = some c := by
    cases hs : s.getLast? with
    | some c => exact ⟨c, rfl⟩
    | none => simp [List.getLast?_eq_none_iff.mp hs, split] at h
  rw [insertLines, List.getLast?_append, hlast, hc, Option.some_or]

/-- **A newline at the end stays**, wherever others are put in. -/
theorem getLast?_insertLines_of_newline (hs : s.getLast? = some '\n') (n : Nat)
    (text : List Char) : (insertLines s n text).getLast? = some '\n' := by
  rcases Nat.lt_or_ge n (split s).length with hlt | hge
  · rw [getLast?_insertLines hlt, hs]
  · rw [insertLines, List.drop_eq_nil_of_le hge, List.flatten_nil, List.append_nil,
      List.append_assoc, List.getLast?_append]
    by_cases hlast : text.getLast? = some '\n'
    · simp [joint, hlast]
    · simp [joint, hlast, hs]

end Texts

/-! ### The request -/

variable {e : Editor} {desk : Desk} {place : Path} {path t text : String} {line : Int}

theorem findInsertion_eq (resolved : e.resolve desk.tree path = .ok place)
    (read : desk.tree.readText (Path.text place) = .ok t) (line : Int) :
    e.findInsertion desk.tree path line =
      if line < 0 ∨ (bodies t.toList).length < line then
        .error (.range (.insertion line (bodies t.toList).length))
      else .ok (place, t, line.toNat) := by
  have hfile : e.resolveFile desk.tree path = .ok place :=
    resolveFile_eq_ok_iff.mpr ⟨resolve_eq_ok_iff.mp resolved, there_of_readText read⟩
  have hread : readFile desk.tree path place = .ok t := readFile_eq_ok_iff.mpr read
  simp only [findInsertion, hfile, hread, Attempt.ok_bind, length_bodies]
  split <;> rfl

section Lines

variable (resolved : e.resolve desk.tree path = .ok place)
  (read : desk.tree.readText (Path.text place) = .ok t)

include resolved read

/-- Other numbers than those of the lines, and 0, are refused. -/
theorem insert_of_outside (h : ¬ (0 ≤ line ∧ line ≤ (bodies t.toList).length)) (text : String) :
    e.insert desk path line text =
      (.error (.range (.insertion line (bodies t.toList).length)), desk) := by
  have hrange : line < 0 ∨ (bodies t.toList).length < line := by omega
  simp only [insert, findInsertion_eq resolved read, if_pos hrange]

/-- After a line of the file the text is put in, and the file is written back. -/
theorem insert_of_inside {link file : Path} {entry : Entry} {mode n : Nat}
    (behind : desk.tree.Behind place link file entry mode t)
    (writable : ∀ s, (desk.tree.rewrite place s).1 = none) (h : n ≤ (bodies t.toList).length)
    (text : String) :
    ∃ said after, e.insert desk path n text = (.ok said, after) ∧
      Spliced desk place link .insert mode t
        (String.ofList (insertLines t.toList n text.toList)) after := by
  have hrange : ¬ ((n : Int) < 0 ∨ ((bodies t.toList).length : Int) < n) := by omega
  have hinsert : e.insert desk path n text =
      e.commit desk path place .insert t (insertLines t.toList n text.toList) n
        (max (split text.toList).length 1) := by
    simp only [insert, findInsertion_eq resolved read, if_neg hrange, Int.toNat_natCast]
  obtain ⟨after, hcommit, hspliced⟩ := commit_spliced e path .insert behind
    (writable _) n (max (split text.toList).length 1)
  exact ⟨_, after, hinsert.trans hcommit, hspliced⟩

end Lines

/-- **What an insertion does.** The path leads to a file with a text, wherever, and the file
can be written. Putting in some text after a number of lines succeeds for the numbers from 0
to that of the lines; then the lines are those before, those of the text and those after it,
a newline at the end stays, and where lines come after the text there is a newline at the end
only if there was one. Other numbers are refused and all is as before. -/
theorem insert_splices_lines (wellFormed : desk.tree.WellFormed)
    (root : Path.Plain e.project.root) (resolved : e.resolve desk.tree path = .ok place)
    (read : desk.tree.readText (Path.text place) = .ok t)
    (writable : ∀ s, (desk.tree.rewrite place s).1 = none) (some_text : text ≠ "") (line : Int) :
    ((∃ said, (e.insert desk path line text).1 = .ok said) ↔
      0 ≤ line ∧ line ≤ (bodies t.toList).length) ∧
    (¬ (0 ≤ line ∧ line ≤ (bodies t.toList).length) →
      e.insert desk path line text =
        (.error (.range (.insertion line (bodies t.toList).length)), desk)) ∧
    (∀ n : Nat, line = n → n ≤ (bodies t.toList).length →
      ∃ link mode c, Spliced desk place link .insert mode t c (e.insert desk path line text).2 ∧
        bodies c.toList =
          (bodies t.toList).take n ++ bodies text.toList ++ (bodies t.toList).drop n ∧
        (t.toList.getLast? = some '\n' → c.toList.getLast? = some '\n') ∧
        (n < (bodies t.toList).length →
          c.toList.getLast? = some '\n' → t.toList.getLast? = some '\n')) := by
  obtain ⟨real, up, hr⟩ := Project.resolve_eq_ok_iff.mp (resolve_eq_ok_iff.mp resolved)
  obtain ⟨link, file, entry, mode, behind⟩ :=
    exists_behind wellFormed (hr.plain root) read (writable t)
  have hrefused (h : ¬ (0 ≤ line ∧ line ≤ (bodies t.toList).length)) :=
    insert_of_outside (e := e) resolved read h text
  refine ⟨⟨?_, ?_⟩, hrefused, ?_⟩
  · rintro ⟨said, hsaid⟩
    by_contra hno
    rw [hrefused hno] at hsaid
    cases hsaid
  · rintro ⟨hpos, hle⟩
    obtain ⟨n, rfl⟩ := Int.eq_ofNat_of_zero_le hpos
    obtain ⟨said, after, hdone, -⟩ :=
      insert_of_inside resolved read behind writable (by omega : n ≤ _) text
    exact ⟨said, by rw [hdone]⟩
  · rintro n rfl hle
    obtain ⟨said, after, hdone, hspliced⟩ :=
      insert_of_inside resolved read behind writable hle text
    have hne : text.toList ≠ [] := fun h => some_text (String.toList_eq_nil_iff.mp h)
    refine ⟨link, mode, _, by rwa [hdone], ?_⟩
    rw [String.toList_ofList]
    refine ⟨bodies_insertLines _ _ hne, fun hlast => ?_, fun hlt hlast => ?_⟩
    · exact getLast?_insertLines_of_newline hlast _ _
    · rwa [getLast?_insertLines (by rwa [length_bodies] at hlt)] at hlast

theorem insert_splices_lines_draftDesk :
    draftDesk.tree.WellFormed ∧ Path.Plain sampleEditor.project.root ∧
    sampleEditor.resolve draftDesk.tree "a" = .ok ["p", "a"] ∧
    draftDesk.tree.readText (Path.text ["p", "a"]) = .ok "één\ntwee" ∧
    (∀ s, (draftDesk.tree.rewrite ["p", "a"] s).1 = none) ∧ "\ndrie" ≠ "" ∧
    ∃ link mode c,
      Spliced draftDesk ["p", "a"] link .insert mode "één\ntwee" c
        (sampleEditor.insert draftDesk "a" 2 "\ndrie").2 ∧
      bodies c.toList = ["één".toList, "twee".toList, [], "drie".toList] := by
  have hwf : draftDesk.tree.WellFormed := by decide
  have hroot : Path.Plain sampleEditor.project.root := by decide
  have hres : sampleEditor.resolve draftDesk.tree "a" = .ok ["p", "a"] := by decide +kernel
  have hread : draftDesk.tree.readText (Path.text ["p", "a"]) = .ok "één\ntwee" := by
    decide +kernel
  have hne : "\ndrie" ≠ "" := by decide
  refine ⟨hwf, hroot, hres, hread, writable_draftDesk, hne, ?_⟩
  obtain ⟨-, -, hdone⟩ :=
    insert_splices_lines hwf hroot hres hread writable_draftDesk hne 2
  obtain ⟨link, mode, c, hspliced, hlines, -⟩ := hdone 2 rfl (by decide)
  exact ⟨link, mode, c, hspliced, hlines.trans (by decide)⟩

end Workbench.Editor
