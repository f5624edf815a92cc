/-
# The lines of a text

A text is empty, or a last line without a newline, or a line with its newline and a text
after it (`lines_induction`). So texts that end with a newline have the lines of both when
they are put together, and any of the lines of a text, taken from its start or its end, are
the lines of what they make up.

* `Lines.bodies` — the lines without the newlines that end them, by splitting at newlines.
* `Lines.bodies_eq` — these are the lines of `Lines.split`, each without its newline.
* `Lines.split_flatten_take`, `Lines.split_flatten_drop` — lines of a part of a text.
* `Lines.numberFrom_eq` — the numbered form line by line, and what its lines are.
-/

import Mathlib.Data.Nat.Digits.Defs
import Workbench.Text.Lines

namespace Workbench.Text.Lines

variable {s t line rest : List Char}

/-! ### One line after the other -/

theorem split_line (h : '\n' ∉ line) (rest : List Char) :
    split (line ++ '\n' :: rest) = (line ++ ['\n']) :: split rest := by
  induction line with
  | nil => simp [split]
  | cons c line ih =>
      obtain ⟨hc, hline⟩ : '\n' ≠ c ∧ '\n' ∉ line := by simpa using h
      rw [List.cons_append, split, if_neg (Ne.symm hc), ih hline]
      rfl

theorem split_last (h : '\n' ∉ line) (hne : line ≠ []) : split line = [line] := by
  induction line with
  | nil => exact absurd rfl hne
  | cons c line ih =>
      obtain ⟨hc, hline⟩ : '\n' ≠ c ∧ '\n' ∉ line := by simpa using h
      rw [split, if_neg (Ne.symm hc)]
      by_cases hnil : line = []
      · simp [hnil, split]
      · rw [ih hline hnil]

/-- **A text line by line**: it is empty, or a line without a newline, or a line with its
newline and a text after it. -/
@[elab_as_elim]
theorem lines_induction {motive : List Char → Prop} (s : List Char) (empty : motive [])
    (last : ∀ line, line ≠ [] → '\n' ∉ line → motive line)
    (more : ∀ line rest, '\n' ∉ line → motive rest → motive (line ++ '\n' :: rest)) :
    motive s := by
  by_cases hmem : '\n' ∈ s
  · obtain ⟨line, rest, rfl, hline⟩ := List.eq_append_cons_of_mem hmem
    exact more line rest hline (lines_induction rest empty last more)
  · by_cases hnil : s = []
    · exact hnil ▸ empty
    · exact last s hnil hmem
termination_by s.length
decreasing_by subst_vars; simp only [List.length_append, List.length_cons]; omega

/-- Nothing is on the last line of a text: it is empty or ends with a newline. -/
def Closed (s : List Char) : Prop :=
  s = [] ∨ s.getLast? = some '\n'

theorem not_closed_last (hne : line ≠ []) (h : '\n' ∉ line) : ¬ Closed line := by
  rintro (hnil | hlast)
  · exact hne hnil
  · exact h (List.mem_of_getLast? hlast)

theorem closed_more (line rest : List Char) : Closed (line ++ '\n' :: rest) ↔ Closed rest := by
  cases rest with
  | nil => simp [Closed]
  | cons c rest => simp [Closed, List.getLast?_append, List.getLast?_cons_cons]

/-- **Lines after a newline** are the lines of what comes after it. -/
theorem split_append (h : Closed s) (t : List Char) : split (s ++ t) = split s ++ split t := by
  induction s using lines_induction with
  | empty => simp [split]
  | last line hne hline => exact absurd h (not_closed_last hne hline)
  | more line rest hline ih =>
      rw [List.append_assoc, List.cons_append, split_line hline, split_line hline,
        ih ((closed_more line rest).mp h), List.cons_append]

/-! ### Some of the lines -/

/-- The first lines of a text are the lines of what they make up. -/
theorem split_flatten_take (s : List Char) (n : Nat) :
    split ((split s).take n).flatten = (split s).take n := by
  induction s using lines_induction generalizing n with
  | empty => simp [split]
  | last line hne hline =>
      cases n with
      | zero => simp [split]
      | succ n => simp [split_last hline hne]
  | more line rest hline ih =>
      cases n with
      | zero => simp [split]
      | succ n =>
          rw [split_line hline, List.take_succ_cons, List.flatten_cons, List.append_assoc,
            List.singleton_append, split_line hline, ih]

/-- The lines that are left of a text are the lines of what they make up. -/
theorem split_flatten_drop (s : List Char) (n : Nat) :
    split ((split s).drop n).flatten = (split s).drop n := by
  induction s using lines_induction generalizing n with
  | empty => simp [split]
  | last line hne hline =>
      cases n with
      | zero => simp [flatten_split]
      | succ n => simp [split_last hline hne, split]
  | more line rest hline ih =>
      cases n with
      | zero => simp [flatten_split]
      | succ n => rw [split_line hline, List.drop_succ_cons, ih]

/-- What is left of a text ends as the text does. -/
theorem getLast?_flatten_drop {n : Nat} (h : n < (split s).length) :
    ((split s).drop n).flatten.getLast? = s.getLast? := by
  have hs : ((split s).take n).flatten ++ ((split s).drop n).flatten = s := by
    rw [← List.flatten_append, List.take_append_drop, flatten_split]
  have hne : ((split s).drop n).flatten ≠ [] := by
    intro hnil
    have hdrop := split_flatten_drop s n
    rw [hnil] at hdrop
    have hlength := congrArg List.length hdrop
    rw [List.length_drop, split, List.length_nil] at hlength
    omega
  rw [← hs, List.getLast?_append, hs, List.getLast?_eq_some_getLast hne, Option.some_or]

/-! ### Lines without their newlines -/

/-- The lines of a text without the newlines that end them: what stands between newlines. A
newline at the end begins no other line. -/
def bodies (s : List Char) : List (List Char) :=
  let parts := s.splitOn '\n'
  if parts.getLast? = some [] then parts.dropLast else parts

/-- A line without its newline. -/
def body (line : List Char) : List Char :=
  if line.getLast? = some '\n' then line.dropLast else line

theorem bodies_line (h : '\n' ∉ line) (rest : List Char) :
    bodies (line ++ '\n' :: rest) = line :: bodies rest := by
  have hne : rest.splitOn '\n' ≠ [] := List.splitOn_ne_nil _ _
  rw [bodies, bodies, List.splitOn_append_cons_self_of_not_mem h]
  simp only [List.getLast?_cons_of_ne_nil hne, List.dropLast_cons_of_ne_nil hne]
  split <;> rfl

theorem bodies_last (h : '\n' ∉ line) (hne : line ≠ []) : bodies line = [line] := by
  simp [bodies, List.splitOn_eq_singleton h, hne]

/-- **The lines without their newlines** are the lines, each without its newline. -/
theorem bodies_eq (s : List Char) : bodies s = (split s).map body := by
  induction s using lines_induction with
  | empty => rfl
  | last line hne hline =>
      have hbody : body line = line := if_neg fun hlast => hline (List.mem_of_getLast? hlast)
      rw [bodies_last hline hne, split_last hline hne, List.map_singleton, hbody]
  | more line rest hline ih =>
      have hbody : body (line ++ ['\n']) = line := by simp [body]
      rw [bodies_line hline, split_line hline, List.map_cons, hbody, ih]

theorem length_bodies (s : List Char) : (bodies s).length = (split s).length := by
  rw [bodies_eq, List.length_map]

theorem bodies_append (h : Closed s) (t : List Char) : bodies (s ++ t) = bodies s ++ bodies t := by
  rw [bodies_eq, split_append h, List.map_append, ← bodies_eq, ← bodies_eq]

theorem bodies_flatten_take (s : List Char) (n : Nat) :
    bodies ((split s).take n).flatten = (bodies s).take n := by
  rw [bodies_eq, split_flatten_take, List.map_take, ← bodies_eq]

theorem bodies_flatten_drop (s : List Char) (n : Nat) :
    bodies ((split s).drop n).flatten = (bodies s).drop n := by
  rw [bodies_eq, split_flatten_drop, List.map_drop, ← bodies_eq]

/-! ### Numbered lines -/

/-- A number is right-aligned in six columns. -/
theorem label_eq (n : Nat) : label n = (toString n).toList.leftpad 6 ' ' := rfl

theorem not_mem_label {c : Char} (hblank : c ≠ ' ') (hdigit : c.isDigit = false) (n : Nat) :
    c ∉ label n := by
  have hdigits : c ∉ (toString n).toList := by
    intro mem
    have hmem : c ∈ Nat.toDigits 10 n := by simpa [Nat.repr] using mem
    have hyes := Nat.isDigit_of_mem_toDigits (by decide) (by decide) hmem
    exact Bool.false_ne_true (hdigit.symm.trans hyes)
  rw [label, List.mem_append, not_or]
  exact ⟨fun mem => hblank (List.mem_replicate.mp mem).2, hdigits⟩

/-- The lines, each with its number. -/
def labelled (first : Nat) (lines : List (List Char)) : List (List Char) :=
  lines.mapIdx fun i line => label (first + i) ++ '\t' :: line

theorem labelled_cons (first : Nat) (line : List Char) (lines : List (List Char)) :
    labelled first (line :: lines) =
      (label first ++ '\t' :: line) :: labelled (first + 1) lines := by
  simp [labelled, List.mapIdx_cons, Nat.add_assoc, Nat.add_comm 1]

theorem numberFrom_eq (first : Nat) (lines : List (List Char)) :
    numberFrom first lines = (labelled first lines).flatten := by
  induction lines generalizing first with
  | nil => rfl
  | cons line lines ih => simp [labelled_cons, numberFrom, ih]

/-- **The lines of the numbered form** are the lines with their numbers. -/
theorem split_number (s : List Char) (first : Nat) :
    split (number s first) = labelled first (split s) := by
  have hlabel (line : List Char) (h : '\n' ∉ line) (n : Nat) :
      '\n' ∉ label n ++ '\t' :: line := by
    simp [not_mem_label (by decide : '\n' ≠ ' ') (by decide) n, h]
  induction s using lines_induction generalizing first with
  | empty => rfl
  | last line hne hline =>
      have hnumber : number line first = label first ++ '\t' :: line := by
        simp [number, split_last hline hne, numberFrom]
      rw [hnumber, split_last (hlabel line hline first) (by simp), split_last hline hne]
      simp [labelled]
  | more line rest hline ih =>
      have hnumber : number (line ++ '\n' :: rest) first =
          (label first ++ '\t' :: line) ++ '\n' :: number rest (first + 1) := by
        simp [number, split_line hline, numberFrom]
      rw [hnumber, split_line (hlabel line hline first), ih, split_line hline, labelled_cons,
        List.append_assoc, List.cons_append]

/-- What stands after the first tab of a line. -/
def afterTab (line : List Char) : List Char :=
  (line.dropWhile (· ≠ '\t')).drop 1

theorem afterTab_label (n : Nat) (line : List Char) :
    afterTab (label n ++ '\t' :: line) = line := by
  have hall : ∀ c ∈ label n, decide (c ≠ '\t') = true := by
    intro c mem
    have hne : c ≠ '\t' := fun h =>
      not_mem_label (by decide : '\t' ≠ ' ') (by decide) n (h ▸ mem)
    simpa using hne
  rw [afterTab, List.dropWhile_append_of_pos hall]
  simp

/-- Without their numbers the lines are what they were. -/
theorem map_afterTab_labelled (first : Nat) (lines : List (List Char)) :
    (labelled first lines).map afterTab = lines := by
  induction lines generalizing first with
  | nil => rfl
  | cons line lines ih => rw [labelled_cons, List.map_cons, afterTab_label, ih]

theorem labelled_take (first n : Nat) (lines : List (List Char)) :
    labelled first (lines.take n) = (labelled first lines).take n := by
  apply List.ext_getElem?
  intro i
  by_cases hi : i < n
  · simp [labelled, hi]
  · simp [labelled, hi]

theorem labelled_drop (first n : Nat) (lines : List (List Char)) :
    labelled (first + n) (lines.drop n) = (labelled first lines).drop n := by
  apply List.ext_getElem?
  intro i
  simp [labelled, Nat.add_assoc]

/-- **Numbering some of the lines** from where they stand gives the lines that they are in the
numbered form. -/
theorem numberFrom_drop_take (s : List Char) (start stop : Nat) :
    numberFrom (start + 1) (((split s).take stop).drop start) =
      (((split (number s 1)).take stop).drop start).flatten := by
  rw [numberFrom_eq, Nat.add_comm start 1, labelled_drop, labelled_take, split_number]

end Workbench.Text.Lines
