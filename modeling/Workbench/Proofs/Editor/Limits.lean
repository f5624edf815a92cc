/-
# How long answers are

A view, and the text that an undone edit brings back, are cut where an answer would be longer
than the limit of the editor; a notice says so. What confirms an edit is not cut: the lines
around the edit are all the lines that were put in, and the file is named as it is.

* `Says` — what an answer says in full, and the notice with which it is cut.
* `says_of_answer` — **an answer that is no refusal** says one of these, cut if it may be.
* `within_limit_iff` — **which answers of the editing tool keep within the limit**: all that
  are cut, and of the others those that are short enough by themselves.
-/

import Workbench.Proofs.Editor.Requests
import Workbench.Proofs.Text.Position
import Workbench.Tool.Editing

namespace Workbench

open Workbench.Files Workbench.Text Workbench.Json Workbench.Tool

namespace Text

/-- A text that was cut is no longer than the limit and the notice. -/
theorem utf8ByteSize_clip_le (content : String) (limit : Nat) (notice : String) :
    (clip content limit notice).utf8ByteSize ≤ limit + notice.utf8ByteSize := by
  unfold clip
  split
  · omega
  · rw [String.utf8ByteSize_append, byteLength_ofList]
    exact Nat.add_le_add_right (byteLength_takeBytes_le limit content.toList) _

end Text

namespace Editor

variable {e : Editor} {desk after : Desk} {request : Request} {output : String}

/-! ### What answers say -/

/-- What is said of an edit that was undone, and what the file holds again. -/
def restoredText (e : Editor) (place : Path) (text : String) : String :=
  "Last edit to " ++ e.project.relative place ++
    " undone successfully. Here's the result of running \x60cat -n\x60 on " ++
    e.project.relative place ++ ":\n" ++ numberLines text 1

/-- What is said of a file that was made, when the making is undone. -/
def removedText (e : Editor) (place : Path) : String :=
  "Last edit to " ++ e.project.relative place ++
    " undone successfully. The file did not exist before it was created and has been removed."

/-- What is said of a file that was made. -/
def createdText (e : Editor) (place : Path) : String :=
  "File created successfully at: " ++ e.project.relative place

/-- What an answer to a request says in full, and the notice with which it is cut; without a
notice it is not cut. -/
inductive Says (e : Editor) (desk : Desk) : Request → Option String → String → Prop
  | directory {path : String} {place : Path} :
      e.resolveThere desk.tree path = .ok place →
      desk.tree.isDirectory (Path.text place) = true →
      Says e desk (.view path none) (some directoryNotice) (e.directoryText desk.tree place)
  | file {path content text : String} {range : Option (Int × Int)} {place : Path} :
      e.resolveFile desk.tree path = .ok place →
      readFile desk.tree path place = .ok content → numbered content range = .ok text →
      Says e desk (.view path range) (some fileNotice) text
  | listing {path text : String} {depth : Option Nat} :
      e.viewDirectory desk.tree path depth = .ok text →
      Says e desk (.viewDirectory path depth) none text
  | created {path text : String} {place : Path} :
      e.resolve desk.tree path = .ok place →
      Says e desk (.create path text) none (e.createdText place)
  | replaced {path old new content : String} {place : Path} {position : Nat} :
      e.findReplacement desk.tree path old new = .ok (place, content, position) →
      Says e desk (.replace path old new) none
        (e.editedText place (replaceAt content.toList old.toList new.toList position)
          (lineAt content.toList position - 1) (Lines.newlines new.toList + 1))
  | inserted {path text content : String} {line : Int} {place : Path} {above : Nat} :
      e.findInsertion desk.tree path line = .ok (place, content, above) →
      Says e desk (.insert path line text) none
        (e.editedText place (insertLines content.toList above text.toList) above
          (max (Lines.split text.toList).length 1))
  | restored {path text : String} {place : Path} {operation : Operation} {older : History Path} :
      e.resolve desk.tree path = .ok place →
      desk.history.pop? place = some (⟨some text, operation⟩, older) →
      Says e desk (.undo path) (some fileNotice) (e.restoredText place text)
  | removed {path : String} {place : Path} {operation : Operation} {older : History Path} :
      e.resolve desk.tree path = .ok place →
      desk.history.pop? place = some (⟨none, operation⟩, older) →
      Says e desk (.undo path) none (e.removedText place)

/-- What is shown of an answer: it is cut where it has a notice for that. -/
def shown (e : Editor) (full : String) : Option String → String
  | some notice => clip full e.limits.maxResponseChars notice
  | none => full

/-! ### One request after the other -/

theorem says_of_view {path : String} {range : Option (Int × Int)}
    (h : e.view desk.tree path range = .ok output) :
    ∃ notice full, Says e desk (.view path range) notice full ∧ output = e.shown full notice := by
  simp only [view, Attempt.bind_eq_ok_iff] at h
  obtain ⟨place, hplace, h⟩ := h
  by_cases hdir : desk.tree.isDirectory (Path.text place) = true
  · cases range with
    | some range => simp [hdir] at h
    | none =>
        have houtput : output = clip (e.directoryText desk.tree place) e.limits.maxResponseChars
            directoryNotice := by simpa [hdir] using h.symm
        exact ⟨_, _, .directory hplace hdir, houtput⟩
  · have hfile : e.resolveFile desk.tree path = .ok place := by
      simp [resolveFile, hplace, hdir]
    rw [if_neg hdir] at h
    simp only [Attempt.bind_eq_ok_iff] at h
    obtain ⟨content, hread, text, hnumbered, h⟩ := h
    exact ⟨_, _, .file hfile hread hnumbered, (Except.ok.inj h).symm⟩

theorem says_of_create {path text : String} (h : e.create desk path text = (.ok output, after)) :
    ∃ full, Says e desk (.create path text) none full ∧ output = full := by
  unfold create at h
  split at h
  · cases h
  · next place hplace =>
      refine ⟨_, .created hplace, ?_⟩
      split at h
      · cases h
      · split at h
        · cases h
        · split at h
          · cases h
          · exact (Except.ok.inj (congrArg Prod.fst h)).symm

/-- An edit that was written is told with the lines around it. -/
theorem output_of_commit {path content : String} {place : Path} {operation : Operation}
    {updated : List Char} {first span : Nat}
    (h : e.commit desk path place operation content updated first span = (.ok output, after)) :
    output = e.editedText place updated first span := by
  unfold commit at h
  split at h
  · cases h
  · exact (Except.ok.inj (congrArg Prod.fst h)).symm

theorem says_of_replace {path old new : String}
    (h : e.replace desk path old new = (.ok output, after)) :
    ∃ full, Says e desk (.replace path old new) none full ∧ output = full := by
  unfold replace at h
  split at h
  · cases h
  · next hfind => exact ⟨_, .replaced hfind, output_of_commit h⟩

theorem says_of_insert {path text : String} {line : Int}
    (h : e.insert desk path line text = (.ok output, after)) :
    ∃ full, Says e desk (.insert path line text) none full ∧ output = full := by
  unfold insert at h
  split at h
  · cases h
  · next hfind => exact ⟨_, .inserted hfind, output_of_commit h⟩

theorem says_of_undo {path : String} (h : e.undo desk path = (.ok output, after)) :
    ∃ notice full, Says e desk (.undo path) notice full ∧ output = e.shown full notice := by
  unfold undo at h
  split at h
  · cases h
  · next place hplace =>
      split at h
      · cases h
      · next change older hpop =>
          split at h
          · have houtput := Except.ok.inj (congrArg Prod.fst h)
            obtain ⟨previous, operation⟩ := change
            cases previous with
            | some text => exact ⟨_, _, .restored hplace hpop, houtput.symm⟩
            | none => exact ⟨_, _, .removed hplace hpop, houtput.symm⟩
          · cases h

/-- **An answer that is no refusal** says what the request found, cut if it may be. -/
theorem says_of_answer (h : e.answer desk request = (.ok output, after)) :
    ∃ notice full, Says e desk request notice full ∧ output = e.shown full notice := by
  cases request with
  | view path range => exact says_of_view (congrArg Prod.fst h)
  | viewDirectory path depth => exact ⟨none, output, .listing (congrArg Prod.fst h), rfl⟩
  | create path text => exact ⟨none, says_of_create h⟩
  | replace path old new => exact ⟨none, says_of_replace h⟩
  | insert path line text => exact ⟨none, says_of_insert h⟩
  | undo path => exact says_of_undo h

/-! ### Limits -/

/-- The most bytes of an answer that is cut, whichever notice it ends with. -/
def answerLimit (e : Editor) : Nat :=
  e.limits.maxResponseChars + max fileNotice.utf8ByteSize directoryNotice.utf8ByteSize

theorem Says.notice_cases {notice : Option String} {full : String}
    (h : Says e desk request notice full) :
    notice = none ∨ notice = some fileNotice ∨ notice = some directoryNotice := by
  cases h <;> simp

/-- What is cut keeps within the limit. -/
theorem Says.within_limit {notice full : String} (h : Says e desk request (some notice) full) :
    (e.shown full (some notice)).utf8ByteSize ≤ e.answerLimit := by
  have hclip := utf8ByteSize_clip_le full e.limits.maxResponseChars notice
  have hnotice :
      notice.utf8ByteSize ≤ max fileNotice.utf8ByteSize directoryNotice.utf8ByteSize := by
    rcases h.notice_cases with hnone | hfile | hdirectory
    · cases hnone
    · obtain rfl := Option.some.inj hfile
      exact le_max_left _ _
    · obtain rfl := Option.some.inj hdirectory
      exact le_max_right _ _
  exact hclip.trans (Nat.add_le_add_left hnotice _)

theorem Says.shown_within_limit_iff {notice : Option String} {full : String}
    (h : Says e desk request notice full) :
    (e.shown full notice).utf8ByteSize ≤ e.answerLimit ↔
      notice.isSome ∨ full.utf8ByteSize ≤ e.answerLimit := by
  cases notice with
  | some notice => exact iff_of_true h.within_limit (.inl rfl)
  | none => simp [shown]

/-- What confirms an edit holds the lines around it, however long they are. -/
theorem byteLength_window_le (e : Editor) (place : Path) (updated : List Char) (first span : Nat) :
    byteLength (Lines.window updated first span e.limits.snippetContextLines) ≤
      (e.editedText place updated first span).utf8ByteSize := by
  unfold editedText
  extract_lets name
  rw [String.utf8ByteSize_append, String.utf8ByteSize_append, byteLength_ofList]
  omega

/-- A call of the editing tool that is answered puts a request to the editor. -/
theorem exists_request {v : Value} (hok : ((editing e).run v desk).1.ok = true) :
    ∃ p request, EditParameters.shape.decode true v = .ok p ∧ p.request = .ok request ∧
      e.answer desk request =
        (.ok ((editing e).run v desk).1.output, ((editing e).run v desk).2) := by
  unfold editing withParameters at hok ⊢
  dsimp only at hok ⊢
  cases hdecode : EditParameters.shape.decode true v with
  | error fault => simp [hdecode, Result.misused, Result.failedAs, Result.failed] at hok
  | ok p =>
      cases hrequest : p.request with
      | error misuse => simp [hdecode, hrequest, ofAnswer, Result.failedAs, Result.failed] at hok
      | ok request =>
          refine ⟨p, request, rfl, hrequest, ?_⟩
          simp only [hdecode, hrequest, ask] at hok ⊢
          cases hanswer : e.answer desk request with
          | mk answer after =>
              cases answer with
              | error refusal =>
                  simp [hanswer, ofAnswer, Result.failedAs, Result.failed] at hok
              | ok output => rfl

/-- **Which answers of the editing tool keep within the limit.** An answer that is no error says
what its request found. If it is cut with a notice (a view of a file or a directory, and the
text that an undone edit brings back) it is no longer than the limit and the longer of the
notices, whatever the parameters, the tree and the earlier edits are. What confirms an edit or
the removal of a file is not cut, so it keeps within that if and only if it does by itself. -/
theorem within_limit_iff (e : Editor) (desk : Desk) (v : Value)
    (hok : ((editing e).run v desk).1.ok = true) :
    ∃ p request notice full, EditParameters.shape.decode true v = .ok p ∧
      p.request = .ok request ∧ Says e desk request notice full ∧
      ((editing e).run v desk).1.output = e.shown full notice ∧
      (((editing e).run v desk).1.output.utf8ByteSize ≤ e.answerLimit ↔
        notice.isSome ∨ full.utf8ByteSize ≤ e.answerLimit) := by
  obtain ⟨p, request, hdecode, hrequest, hanswer⟩ := exists_request hok
  obtain ⟨notice, full, hsays, houtput⟩ := says_of_answer hanswer
  refine ⟨p, request, notice, full, hdecode, hrequest, hsays, houtput, ?_⟩
  rw [houtput]
  exact hsays.shown_within_limit_iff

/-! ### A sample -/

/-- A project in which answers are cut early. -/
def terseEditor : Editor :=
  ⟨⟨["p"], "p", none⟩, { maxResponseChars := 5 }⟩

/-- A project with one file of one line. -/
def lineDesk : Desk :=
  ⟨⟨[(["p"], .directory 0o755), (["p", "a"], .file 0o644 (.text "x\n"))], []⟩, History.empty⟩

/-- A call that views the file. -/
def lineView : Value :=
  .object [("command", .string "view"), ("path", .string "a")]

/-- A call that makes the line of the file a long one. -/
def longReplacement : Value :=
  .object [("command", .string "str_replace"),
    ("new_str", .string (String.ofList (List.replicate 400 'y'))), ("old_str", .string "x"),
    ("path", .string "a")]

theorem within_limit_lineView :
    ((editing terseEditor).run lineView lineDesk).1.ok = true ∧
      terseEditor.limits.maxResponseChars < (numberLines "x\n" 1).utf8ByteSize ∧
      ((editing terseEditor).run lineView lineDesk).1.output.utf8ByteSize ≤
        terseEditor.answerLimit := by
  have hok : ((editing terseEditor).run lineView lineDesk).1.ok = true := by decide +kernel
  obtain ⟨p, request, notice, full, hdecode, hrequest, hsays, -, hwithin⟩ :=
    within_limit_iff terseEditor lineDesk lineView hok
  have hp : EditParameters.shape.decode true lineView = .ok { command := "view", path := "a" } := by
    rfl
  obtain rfl := Except.ok.inj (hdecode.symm.trans hp)
  obtain rfl : Request.view "a" none = request := Except.ok.inj hrequest
  refine ⟨hok, by decide +kernel, hwithin.mpr (.inl ?_)⟩
  cases hsays <;> rfl

/-- What confirms an edit is not cut: here it is longer than the limit and either notice. -/
theorem replace_beyond_limit :
    0 < terseEditor.limits.maxResponseChars ∧
      ((editing terseEditor).run longReplacement lineDesk).1.ok = true ∧
      terseEditor.answerLimit <
        ((editing terseEditor).run longReplacement lineDesk).1.output.utf8ByteSize := by
  have hok : ((editing terseEditor).run longReplacement lineDesk).1.ok = true := by decide +kernel
  refine ⟨by decide, hok, ?_⟩
  obtain ⟨p, request, hdecode, hrequest, hanswer⟩ := exists_request hok
  have hp : EditParameters.shape.decode true longReplacement =
      .ok { command := "str_replace", path := "a", oldText := some "x",
            newText := some (String.ofList (List.replicate 400 'y')) } := by
    rfl
  obtain rfl := Except.ok.inj (hdecode.symm.trans hp)
  obtain rfl : Request.replace "a" "x" (String.ofList (List.replicate 400 'y')) = request :=
    Except.ok.inj hrequest
  obtain ⟨full, hsays, houtput⟩ := says_of_replace hanswer
  rw [houtput]
  cases hsays with
  | replaced hfound =>
      have hline : terseEditor.findReplacement lineDesk.tree "a" "x"
          (String.ofList (List.replicate 400 'y')) = .ok (["p", "a"], "x\n", 0) := by
        decide +kernel
      cases hline.symm.trans hfound
      have hnew : (String.ofList (List.replicate 400 'y')).toList = List.replicate 400 'y' :=
        String.toList_ofList
      have hedited : replaceAt "x\n".toList "x".toList (List.replicate 400 'y') 0 =
          List.replicate 400 'y' ++ ['\n'] := by
        decide +kernel
      refine lt_of_lt_of_le ?_ (byteLength_window_le ..)
      rw [hnew, hedited]
      decide +kernel

end Editor

end Workbench
