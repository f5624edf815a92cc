/-
# The line of a byte

A byte of a text stands on one of its lines, and the number of that line is the number of
newlines before the byte: every newline ends a line, and what comes after the last newline
before the byte is the start of the line that holds it.

* `Lines.exists_closed` — a text is whole lines and what comes after the last newline.
* `Lines.length_split`, `Lines.length_split_of_closed` — how many lines a text has.
* `Lines.HoldsByte` — a line holds the byte at a position.
* `Lines.holdsByte_newlines` — **the line of a byte**; `Lines.HoldsByte.newlines_le` and
  `Lines.HoldsByte.le_newlines` tell that no other holds it.
-/

import Workbench.Proofs.Text.Lines
import Workbench.Proofs.Text.Position

namespace Workbench.Text.Lines

variable {s front back line : List Char} {c : Char} {k b n : Nat}

/-! ### Newlines and lines -/

@[simp] theorem newlines_append (s t : List Char) : newlines (s ++ t) = newlines s + newlines t :=
  List.count_append

theorem newlines_of_not_mem (h : '\n' ∉ line) : newlines line = 0 :=
  List.count_eq_zero.mpr h

@[simp] theorem newlines_cons_newline (s : List Char) : newlines ('\n' :: s) = newlines s + 1 :=
  List.count_cons_self

theorem newlines_dropLast_le (s : List Char) : newlines s.dropLast ≤ newlines s :=
  (List.dropLast_sublist s).count_le '\n'

/-- Whole lines are as many as their newlines. -/
theorem length_split_of_closed (h : Closed s) : (split s).length = newlines s := by
  induction s using lines_induction with
  | empty => rfl
  | last line hne hline => exact absurd h (not_closed_last hne hline)
  | more line rest hline ih =>
      rw [split_line hline, List.length_cons, ih ((closed_more line rest).mp h), newlines_append,
        newlines_of_not_mem hline, newlines_cons_newline, Nat.zero_add]

/-- A newline at the end begins no other line. -/
theorem length_split (hne : s ≠ []) : (split s).length = newlines s.dropLast + 1 := by
  induction s using lines_induction with
  | empty => exact absurd rfl hne
  | last line hne hline =>
      rw [split_last hline hne, newlines_of_not_mem fun h => hline (List.dropLast_subset line h)]
      rfl
  | more line rest hline ih =>
      rw [split_line hline, List.length_cons]
      by_cases hrest : rest = []
      · subst hrest
        rw [List.dropLast_concat, newlines_of_not_mem hline]
        rfl
      · rw [ih hrest, List.dropLast_append_of_ne_nil (by simp),
          List.dropLast_cons_of_ne_nil hrest, newlines_append, newlines_of_not_mem hline,
          newlines_cons_newline, Nat.zero_add]

/-- **A text is whole lines**, one for every newline, and what comes after the last newline. -/
theorem exists_closed (s : List Char) :
    ∃ closed last, s = closed ++ last ∧ Closed closed ∧ '\n' ∉ last := by
  induction s using lines_induction with
  | empty => exact ⟨[], [], rfl, .inl rfl, by simp⟩
  | last line hne hline => exact ⟨[], line, rfl, .inl rfl, hline⟩
  | more line rest hline ih =>
      obtain ⟨closed, last, rfl, hclosed, hlast⟩ := ih
      exact ⟨line ++ '\n' :: closed, last, by simp, (closed_more line closed).mpr hclosed, hlast⟩

theorem newlines_le_length_split (s : List Char) : newlines s ≤ (split s).length := by
  obtain ⟨closed, last, rfl, hclosed, hlast⟩ := exists_closed s
  rw [split_append hclosed, List.length_append, length_split_of_closed hclosed, newlines_append,
    newlines_of_not_mem hlast]
  exact Nat.le_add_right _ _

/-! ### Where lines begin and end -/

/-- A line goes on at least to the first newline. -/
theorem prefix_first_line (h : '\n' ∉ line) (hne : line ≠ []) (rest : List Char) :
    line <+: ((split (line ++ rest)).take 1).flatten := by
  by_cases hrest : '\n' ∈ rest
  · obtain ⟨more, others, rfl, hmore⟩ := List.eq_append_cons_of_mem hrest
    have hline : '\n' ∉ line ++ more := by simp [h, hmore]
    rw [← List.append_assoc, split_line hline]
    simp
  · have hline : '\n' ∉ line ++ rest := by simp [h, hrest]
    rw [split_last hline (by simp [hne])]
    simp

/-- A line goes on at least to the character after what has no newline. -/
theorem prefix_first_line_cons (h : '\n' ∉ line) (c : Char) (rest : List Char) :
    line ++ [c] <+: ((split (line ++ c :: rest)).take 1).flatten := by
  by_cases hc : c = '\n'
  · rw [hc, split_line h]
    simp
  · rw [List.append_cons line c rest]
    exact prefix_first_line (by simp [h, Ne.symm hc]) (by simp) rest

theorem take_split_append {closed : List Char} (h : Closed closed) (rest : List Char) (n : Nat) :
    ((split (closed ++ rest)).take (newlines closed + n)).flatten =
      closed ++ ((split rest).take n).flatten := by
  rw [split_append h, ← length_split_of_closed h, List.take_length_add_append,
    List.flatten_append, flatten_split]

/-- The lines that end before a place are whole there. -/
theorem flatten_take_newlines (front back : List Char) :
    ((split (front ++ back)).take (newlines front)).flatten <+: front := by
  obtain ⟨closed, last, rfl, hclosed, hlast⟩ := exists_closed front
  rw [List.append_assoc, newlines_append, newlines_of_not_mem hlast, take_split_append hclosed]
  simp

/-- The line of a character goes on at least to the character. -/
theorem prefix_take_newlines (front : List Char) (c : Char) (back : List Char) :
    front ++ [c] <+: ((split (front ++ c :: back)).take (newlines front + 1)).flatten := by
  obtain ⟨closed, last, rfl, hclosed, hlast⟩ := exists_closed front
  rw [List.append_assoc, List.append_assoc, newlines_append, newlines_of_not_mem hlast,
    Nat.add_zero, take_split_append hclosed]
  exact (List.prefix_append_right_inj closed).mpr (prefix_first_line_cons hlast c back)

/-! ### The line of a byte -/

/-- The line with a number, counted from 0, holds the byte at a position. -/
def HoldsByte (s : List Char) (k b : Nat) : Prop :=
  byteLength ((split s).take k).flatten ≤ b ∧ b < byteLength ((split s).take (k + 1)).flatten

instance (s : List Char) (k b : Nat) : Decidable (HoldsByte s k b) :=
  inferInstanceAs (Decidable (_ ∧ _))

theorem byteLength_take_mono (s : List Char) (h : k ≤ n) :
    byteLength ((split s).take k).flatten ≤ byteLength ((split s).take n).flatten := by
  obtain ⟨more, hmore⟩ := List.take_prefix_take_left (l := split s) h
  rw [← hmore, List.flatten_append]
  exact byteLength_mono (List.prefix_append ..)

/-- A byte after a place stands on no line that ends before it. -/
theorem HoldsByte.newlines_le (h : HoldsByte (front ++ back) k b) (hb : byteLength front ≤ b) :
    newlines front ≤ k := by
  by_contra hlt
  have hends := byteLength_take_mono (front ++ back) (by omega : k + 1 ≤ newlines front)
  have hfront := byteLength_mono (flatten_take_newlines front back)
  have hholds := h.2
  omega

/-- A byte before the end of a character stands on no line that begins after it. -/
theorem HoldsByte.le_newlines (h : HoldsByte (front ++ c :: back) k b)
    (hb : b < byteLength (front ++ [c])) : k ≤ newlines front := by
  by_contra hlt
  have hbegins := byteLength_take_mono (front ++ c :: back) (by omega : newlines front + 1 ≤ k)
  have hfront := byteLength_mono (prefix_take_newlines front c back)
  have hholds := h.1
  omega

/-- **The line of a byte** has the number of the newlines before it. -/
theorem holdsByte_newlines (front : List Char) (c : Char) (back : List Char)
    (hb : byteLength front ≤ b) (hc : b < byteLength (front ++ [c])) :
    HoldsByte (front ++ c :: back) (newlines front) b :=
  ⟨(byteLength_mono (flatten_take_newlines front _)).trans hb,
    hc.trans_le (byteLength_mono (prefix_take_newlines front c back))⟩

/-- What follows a place begins on the line with the number of the newlines before it. -/
theorem holdsByte_of_lt (h : byteLength front < byteLength (front ++ back)) :
    HoldsByte (front ++ back) (newlines front) (byteLength front) := by
  cases back with
  | nil =>
      rw [List.append_nil] at h
      exact absurd h (Nat.lt_irrefl _)
  | cons c back =>
      refine holdsByte_newlines front c back le_rfl ?_
      rw [byteLength_append]
      exact Nat.lt_add_of_pos_right (byteLength_pos (by simp))

end Workbench.Text.Lines
