/-
# Requests to the editor, with every step checked

The requests to the editor are answered once more, with words that may overflow. What a
request works on is in memory: the text of a file when it is read, the texts of the request
itself, the edited text. The first line of an edit and the lines that it spans are counted
in the edited text, so that their sum is at most one more than its bytes; a word has
room for that and for as many lines of context as a configuration can ask for.

* `Checked.answer` — answers a request, with every step checked.
* `Checked.tracks_answer` — **no step of a request is out of range.**
-/

import Workbench.Proofs.Checked.Occurring
import Workbench.Proofs.Checked.Rendering
import Workbench.Proofs.Editor.Snippets
import Workbench.Proofs.Editor.Viewing

namespace Workbench.Checked

open Workbench.Files Workbench.Text Workbench.Editor

/-! ### Views -/

/-- The numbered lines of a text, all of them or those of a range. -/
def numbered (content : String) : Option (Int × Int) → Checked (Except Refusal String)
  | none => do
      let shown ← number content.toList 1
      return .ok (String.ofList shown)
  | some (first, last) => do
      let lines := Lines.split content.toList
      let count ← signed lines.length
      match checkRange first last count with
      | .error fault => return .error (.range fault)
      | .ok (start, stop) =>
          let before ← sub start 1
          let wanted ← part lines before stop
          let shown ← number wanted.flatten start
          return .ok (String.ofList shown)

/-- Views a file, or the lines of a range of it, or a directory. -/
def view (e : Editor) (tree : Tree) (path : String) (range : Option (Int × Int)) :
    Checked (Except Refusal String) :=
  match e.resolveThere tree path with
  | .error refusal => .ok (.error refusal)
  | .ok place =>
      if tree.isDirectory (Path.text place) then
        if range.isSome then .ok (.error (.misuse .rangeOfDirectory))
        else (clip (e.directoryText tree place) e.limits.maxResponseChars directoryNotice).map .ok
      else match readFile tree path place with
        | .error refusal => .ok (.error refusal)
        | .ok content => do
            let content ← hold content
            let shown ← numbered content range
            match shown with
            | .error refusal => return .error refusal
            | .ok shown => (clip shown e.limits.maxResponseChars fileNotice).map .ok

/-! ### Edits -/

/-- The answer to an edit: the lines around it. -/
def editedText (e : Editor) (place : Path) (updated : List Char) (first span : Nat) :
    Checked String := do
  let shown ← window updated first span e.limits.snippetContextLines
  return e.editedHead place ++ String.ofList shown ++ editedTail

/-- Writes an edited text, counts the lines of the edit, and remembers it. -/
def commit (e : Editor) (desk : Desk) (path : String) (place : Path) (operation : Operation)
    (content updated : String) (lines : Checked (Nat × Nat)) : Checked Editor.Outcome :=
  match desk.tree.rewrite place updated with
  | (some fault, tree) => .ok (.error (.access path fault), { desk with tree })
  | (none, tree) => do
      let (first, span) ← lines
      let said ← editedText e place updated.toList first span
      return (.ok said, ⟨tree, desk.history.push place ⟨some content, operation⟩⟩)

/-- The first line of a replacement, counted from 0, and the lines that it spans. -/
def replacedLines (content new : List Char) (start : Nat) : Checked (Nat × Nat) := do
  let line ← lineAt content start
  let first ← sub line 1
  let span ← add (Lines.newlines new) 1
  return (first, span)

/-- Replaces the one stretch of a file that is `old`. -/
def replace (e : Editor) (desk : Desk) (path old new : String) : Checked Editor.Outcome :=
  match e.resolveFile desk.tree path with
  | .error refusal => .ok (.error refusal, desk)
  | .ok place =>
      if old = "" then .ok (.error (.misuse .emptyOld), desk)
      else if old = new then .ok (.error (.noChange path), desk)
      else match readFile desk.tree path place with
        | .error refusal => .ok (.error refusal, desk)
        | .ok content => do
            let content ← hold content
            let found ← occurrences content.toList old.toList
            match found with
            | [] => return (.error (.noMatch path old), desk)
            | [start] =>
                let _room ← add content.utf8ByteSize new.utf8ByteSize
                let before ← slice content.toList 0 start
                let stop ← add start old.utf8ByteSize
                let after ← slice content.toList stop content.utf8ByteSize
                let updated ← hold (String.ofList (before ++ new.toList ++ after))
                commit e desk path place .replace content updated
                  (replacedLines content.toList new.toList start)
            | many =>
                let lines ← many.mapM (lineAt content.toList)
                return (.error (.ambiguous path lines), desk)

/-- Puts in a text after a line. -/
def insert (e : Editor) (desk : Desk) (path : String) (line : Int) (text : String) :
    Checked Editor.Outcome :=
  match e.resolveFile desk.tree path with
  | .error refusal => .ok (.error refusal, desk)
  | .ok place =>
      match readFile desk.tree path place with
      | .error refusal => .ok (.error refusal, desk)
      | .ok content => do
          let content ← hold content
          let lines := Lines.split content.toList
          if line < 0 ∨ (lines.length : Int) < line then
            return (.error (.range (.insertion line lines.length)), desk)
          else
            let after := line.toNat
            let above ← part lines 0 after
            let below ← part lines after lines.length
            let rest := below.flatten
            let updated ← hold (String.ofList (closeLine above.flatten ++ text.toList ++
              joint content.toList text.toList rest ++ rest))
            commit e desk path place .insert content updated
              (.ok (after, max (Lines.split text.toList).length 1))

/-- The answer to an undone edit. -/
def undoneText (e : Editor) (place : Path) : Option String → Checked String
  | some text => do
      let text ← hold text
      let shown ← number text.toList 1
      let name := e.project.relative place
      clip ("Last edit to " ++ name ++
        " undone successfully. Here's the result of running \x60cat -n\x60 on " ++ name ++
        ":\n" ++ String.ofList shown) e.limits.maxResponseChars fileNotice
  | none => .ok (e.undoneText place none)

/-- Undoes the last edit of a file; one that cannot be undone stays the last. -/
def undo (e : Editor) (desk : Desk) (path : String) : Checked Editor.Outcome :=
  match e.resolve desk.tree path with
  | .error refusal => .ok (.error refusal, desk)
  | .ok place =>
      match desk.history.pop? place with
      | none => .ok (.error (.noHistory path), desk)
      | some (change, history) =>
          match restore desk.tree place change.previous with
          | (none, tree) => do
              let said ← undoneText e place change.previous
              return (.ok said, ⟨tree, history⟩)
          | (some fault, tree) =>
              .ok (.error (.access path fault), ⟨tree, history.push place change⟩)

/-- Answers a request. Listing and making files take no arithmetic. -/
def answer (e : Editor) (desk : Desk) : Request → Checked Editor.Outcome
  | .view path range => (view e desk.tree path range).map (·, desk)
  | .viewDirectory path depth => .ok (e.viewDirectory desk.tree path depth, desk)
  | .create path text => .ok (e.create desk path text)
  | .replace path old new => do
      let new ← hold new
      replace e desk path old new
  | .insert path line text => insert e desk path line text
  | .undo path => undo e desk path

/-! ### Views are in range -/

theorem range_of_checkRange {first last : Int} {count start stop : Nat}
    (h : checkRange first last count = .ok (start, stop)) :
    1 ≤ start ∧ start ≤ stop ∧ stop ≤ count := by
  by_cases hvalid : ValidRange first last count
  · obtain ⟨rfl, rfl⟩ : first.toNat = start ∧ lastLine last count = stop := by
      simpa using (checkRange_of_valid hvalid).symm.trans h
    obtain ⟨hlow, hhigh, hlast⟩ := hvalid
    unfold lastLine
    split <;> omega
  · obtain ⟨fault, hfault⟩ := checkRange_of_not_valid hvalid
    rw [hfault] at h
    cases h

theorem numbered_eq {content : String} (fits : content.utf8ByteSize < 2 ^ 63)
    (range : Option (Int × Int)) :
    numbered content range = .ok (Editor.numbered content range) := by
  rw [← byteLength_toList] at fits
  cases range with
  | none =>
    rw [numbered, number_eq fits (by omega)]
    rfl
  | some range =>
    obtain ⟨first, last⟩ := range
    have hlines := length_split_le content.toList
    simp only [numbered, Editor.numbered]
    rw [signed_eq (by omega), Attempt.ok_bind]
    cases hrange : checkRange first last (Lines.split content.toList).length with
    | error fault => rfl
    | ok lines =>
      obtain ⟨start, stop⟩ := lines
      obtain ⟨hlow, hle, hhigh⟩ := range_of_checkRange hrange
      simp only
      rw [sub_eq hlow, Attempt.ok_bind, part_eq (by omega) hhigh, Attempt.ok_bind,
        number_part_eq fits (by omega)]
      rfl

theorem tracks_view (e : Editor) (tree : Tree) (path : String) (range : Option (Int × Int)) :
    Tracks (view e tree path range) (e.view tree path range) := by
  unfold view Editor.view
  cases e.resolveThere tree path with
  | error refusal => exact .of_eq rfl
  | ok place =>
    simp only [Attempt.ok_bind]
    split
    · split
      · exact .of_eq rfl
      · refine .of_eq ?_
        rw [clip_eq]
        rfl
    · cases readFile tree path place with
      | error refusal => exact .of_eq rfl
      | ok content =>
        refine Tracks.hold_bind fun fits => .of_eq ?_
        rw [numbered_eq fits, Attempt.ok_bind]
        cases hshown : Editor.numbered content range with
        | error refusal => simp only [Attempt.ok_bind, hshown, Attempt.error_bind, Attempt.pure_eq]
        | ok shown =>
          simp only [Attempt.ok_bind, hshown, Attempt.pure_eq]
          rw [clip_eq]
          rfl

/-! ### Edits are in range -/

theorem tracks_undoneText (e : Editor) (place : Path) (previous : Option String) :
    Tracks (undoneText e place previous) (e.undoneText place previous) := by
  cases previous with
  | none => exact .of_eq rfl
  | some text =>
    refine Tracks.hold_bind fun fits => .of_eq ?_
    rw [← byteLength_toList] at fits
    rw [number_eq fits (by omega), Attempt.ok_bind]
    exact clip_eq _ _ _

theorem tracks_undo (e : Editor) (desk : Desk) (path : String) :
    Tracks (undo e desk path) (e.undo desk path) := by
  unfold undo Editor.undo
  cases e.resolve desk.tree path with
  | error refusal => exact .of_eq rfl
  | ok place =>
    simp only
    cases desk.history.pop? place with
    | none => exact .of_eq rfl
    | some popped =>
      obtain ⟨change, history⟩ := popped
      simp only
      cases restore desk.tree place change.previous with
      | mk fault tree =>
        cases fault with
        | some fault => exact .of_eq rfl
        | none => exact (tracks_undoneText e place change.previous).bind (.of_eq rfl)

theorem replacedLines_eq {content new : List Char} (hcontent : byteLength content < 2 ^ 63)
    (hnew : byteLength new < 2 ^ 63) (k : Nat) :
    replacedLines content new (byteLength (content.take k)) =
      .ok (Editor.lineAt content k - 1, Lines.newlines new + 1) := by
  have hlines := newlines_le new
  have hpos : 1 ≤ Editor.lineAt content k := Nat.le_add_left 1 _
  rw [replacedLines, lineAt_eq hcontent, Attempt.ok_bind, sub_eq hpos, Attempt.ok_bind,
    add_eq (by omega)]
  rfl

section Edits

variable {e : Editor} (hcontext : e.limits.snippetContextLines < 2 ^ 63)

include hcontext

theorem editedText_eq {updated : List Char} {first span : Nat} (place : Path)
    (fits : byteLength updated < 2 ^ 63) (hlast : first + max span 1 ≤ byteLength updated + 1) :
    editedText e place updated first span = .ok (e.editedText place updated first span) := by
  rw [editedText, window_eq fits (by omega)]
  rfl

theorem commit_eq {updated : List Char} {lines : Checked (Nat × Nat)} {first span : Nat}
    (desk : Desk) (path : String) (place : Path) (operation : Operation) (content : String)
    (fits : byteLength updated < 2 ^ 63) (hlines : lines = .ok (first, span))
    (hlast : first + max span 1 ≤ byteLength updated + 1) :
    commit e desk path place operation content (String.ofList updated) lines =
      .ok (e.commit desk path place operation content updated first span) := by
  unfold commit Editor.commit
  cases desk.tree.rewrite place (String.ofList updated) with
  | mk fault tree =>
    cases fault with
    | some fault => rfl
    | none =>
      simp only
      rw [hlines, Attempt.ok_bind]
      simp only
      rw [String.toList_ofList, editedText_eq hcontext place fits hlast]
      rfl

/-- The one occurrence of a text is replaced. -/
theorem tracks_replaced {content old new : String} {k : Nat} (desk : Desk) (path : String)
    (place : Path) (hcontent : content.utf8ByteSize < 2 ^ 63) (hnew : new.utf8ByteSize < 2 ^ 63)
    (hk : k ∈ Editor.occurrences old.toList content.toList) :
    Tracks (do
      let _room ← add content.utf8ByteSize new.utf8ByteSize
      let before ← slice content.toList 0 (byteLength (content.toList.take k))
      let stop ← add (byteLength (content.toList.take k)) old.utf8ByteSize
      let after ← slice content.toList stop content.utf8ByteSize
      let updated ← hold (String.ofList (before ++ new.toList ++ after))
      commit e desk path place .replace content updated
        (replacedLines content.toList new.toList (byteLength (content.toList.take k))))
      (e.commit desk path place .replace content
        (replaceAt content.toList old.toList new.toList k)
        (Editor.lineAt content.toList k - 1) (Lines.newlines new.toList + 1)) := by
  simp only [← byteLength_toList] at hcontent hnew ⊢
  have hstop := byteLength_occurrence_le hk
  rw [add_eq (by omega), Attempt.ok_bind, slice_of_isPrefix (List.take_prefix ..),
    Attempt.ok_bind, add_eq (by omega), Attempt.ok_bind, slice_after_occurrence hk,
    Attempt.ok_bind, replaceAt]
  refine Tracks.hold_bind fun fits => .of_eq ?_
  rw [byteLength_ofList] at fits
  refine commit_eq hcontext desk path place .replace content fits
    (replacedLines_eq hcontent hnew k) ?_
  have hnewlines := newlines_le (content.toList.take k ++ new.toList ++
    content.toList.drop (k + old.toList.length))
  rw [Lines.newlines_append, Lines.newlines_append] at hnewlines
  rw [Editor.lineAt]
  omega

theorem tracks_replace (desk : Desk) (path old : String) {new : String}
    (hnew : new.utf8ByteSize < 2 ^ 63) :
    Tracks (replace e desk path old new) (e.replace desk path old new) := by
  unfold replace Editor.replace Editor.findReplacement
  cases e.resolveFile desk.tree path with
  | error refusal => exact .of_eq rfl
  | ok place =>
    simp only [Attempt.ok_bind]
    split
    · exact .of_eq rfl
    · next hne =>
      split
      · exact .of_eq rfl
      · cases readFile desk.tree path place with
        | error refusal => exact .of_eq rfl
        | ok content =>
          refine Tracks.hold_bind fun fits => ?_
          have hfound : occurrences content.toList old.toList =
              .ok ((Editor.occurrences old.toList content.toList).map fun k =>
                byteLength (content.toList.take k)) :=
            occurrences_eq (by rwa [byteLength_toList]) (by simpa using hne)
          simp only [Attempt.ok_bind, uniqueOccurrence]
          cases hoccurs : Editor.occurrences old.toList content.toList with
          | nil =>
            rw [hfound, hoccurs]
            exact .of_eq rfl
          | cons k more =>
            rw [hfound, hoccurs]
            cases more with
            | nil => exact tracks_replaced hcontext desk path place fits hnew (by simp [hoccurs])
            | cons k' more =>
              have hlines : ((k :: k' :: more).map fun k => byteLength (content.toList.take k)).mapM
                  (lineAt content.toList) =
                  .ok ((k :: k' :: more).map (Editor.lineAt content.toList)) := by
                refine Attempt.mapM_eq_ok_iff.mpr ?_
                rw [List.map_map, List.map_map]
                exact List.map_congr_left fun k _ => lineAt_eq (by rwa [byteLength_toList]) k
              refine .of_eq ?_
              simp only [Attempt.ok_bind, List.map_cons] at hlines ⊢
              rw [hlines]
              rfl

theorem tracks_insert (desk : Desk) (path : String) (line : Int) (text : String) :
    Tracks (insert e desk path line text) (e.insert desk path line text) := by
  unfold insert Editor.insert findInsertion
  cases e.resolveFile desk.tree path with
  | error refusal => exact .of_eq rfl
  | ok place =>
    simp only [Attempt.ok_bind]
    cases readFile desk.tree path place with
    | error refusal => exact .of_eq rfl
    | ok content =>
      refine Tracks.hold_bind fun _ => ?_
      simp only [Attempt.ok_bind]
      split
      · exact .of_eq rfl
      · next hline =>
        rw [part_eq (Nat.zero_le _) (by omega), Attempt.ok_bind,
          part_eq (by omega) (Nat.le_refl _), Attempt.ok_bind, List.drop_zero, List.take_length]
        refine Tracks.hold_bind fun fits => .of_eq ?_
        rw [byteLength_ofList] at fits
        refine commit_eq hcontext desk path place .insert content fits rfl ?_
        -- the lines above the edit have an end each, and every line of the text has a byte
        have habove : Lines.newlines
            (closeLine ((Lines.split content.toList).take line.toNat).flatten) = line.toNat :=
          newlines_closeLine (by omega)
        have hnewlines := newlines_le
          (closeLine ((Lines.split content.toList).take line.toNat).flatten)
        have hlines := length_split_le text.toList
        simp only [byteLength_append] at fits ⊢
        omega

end Edits

/-- **No step of a request is out of range**, for any texts, positions and lines, on any tree
and with any edits before. -/
theorem tracks_answer {e : Editor} (hcontext : e.limits.snippetContextLines < 2 ^ 63) (desk : Desk)
    (request : Request) : Tracks (answer e desk request) (e.answer desk request) := by
  cases request with
  | view path range => exact (tracks_view e desk.tree path range).map (·, desk)
  | viewDirectory path depth => exact .of_eq rfl
  | create path text => exact .of_eq rfl
  | replace path old new =>
    exact Tracks.hold_bind fun hnew => tracks_replace hcontext desk path old hnew
  | insert path line text => exact tracks_insert hcontext desk path line text
  | undo path => exact tracks_undo e desk path

end Workbench.Checked
