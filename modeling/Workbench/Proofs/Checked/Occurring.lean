/-
# Occurrences, with every step checked

Where a text occurs in another is found by seeking on from one byte: the next occurrence is
so many bytes on, and seeking goes on one character after it. Every place from which it
does is a boundary, so that what is left of the text can be taken there.

* `Checked.occurrences_eq` — **no step of the way is out of range**, and the places are those
  that are found character by character.
* `Checked.lineAt_eq` — neither is one in counting the lines up to an occurrence.
-/

import Workbench.Proofs.Checked.Word
import Workbench.Proofs.Editor.Replacing

namespace Workbench.Checked

open Workbench.Text

/-- The position at which a text first occurs in another. -/
def find? (old : List Char) : List Char → Option Nat
  | [] => if old.isPrefixOf [] then some 0 else none
  | c :: rest =>
      if old.isPrefixOf (c :: rest) then some 0 else (find? old rest).map (c.utf8Size + ·)

/-- The size of the first character; of none it is taken to be one. -/
def stepOver (s : List Char) : Nat :=
  match s with
  | [] => 1
  | c :: _ => c.utf8Size

theorem stepOver_pos (s : List Char) : 0 < stepOver s := by
  cases s with
  | nil => exact Nat.one_pos
  | cons c rest => exact c.utf8Size_pos

/-- The positions from `start` on at which `old` occurs in a text. -/
def occurrencesFrom (s old : List Char) (start : Nat) : Checked (List Nat) :=
  match slice s start (byteLength s) with
  | .error trap => .error trap
  | .ok left =>
      match find? old left with
      | none => .ok []
      | some offset =>
          match _hplace : add start offset with
          | .error trap => .error trap
          | .ok place =>
              match slice s place (byteLength s) with
              | .error trap => .error trap
              | .ok here =>
                  match _hon : add place (stepOver here) with
                  | .error trap => .error trap
                  | .ok on =>
                      if byteLength s < on then .ok [place]
                      else (occurrencesFrom s old on).map (place :: ·)
termination_by byteLength s + 1 - start
decreasing_by
  have := add_of_eq_ok _hplace
  have := add_of_eq_ok _hon
  have := stepOver_pos here
  omega

/-- The positions at which `old` occurs in a text. -/
def occurrences (s old : List Char) : Checked (List Nat) :=
  occurrencesFrom s old 0

/-- The number of the line that a position lies in, counted from 1. -/
def lineAt (s : List Char) (position : Nat) : Checked Nat := do
  let before ← slice s 0 position
  add (Lines.newlines before) 1

/-! ### The next occurrence -/

section Finding

variable {old s : List Char} {n : Nat}

theorem occurrences_of_find?_eq_none (h : find? old s = none) : Editor.occurrences old s = [] := by
  induction s with
  | nil =>
    have hno : ¬ old.isPrefixOf [] := by
      intro hp
      rw [find?, if_pos hp] at h
      cases h
    exact if_neg hno
  | cons c s ih =>
    rw [find?] at h
    split at h
    · cases h
    · next hno =>
      rw [List.isPrefixOf_iff_prefix] at hno
      rw [Editor.occurrences_cons, if_neg hno, ih (Option.map_eq_none_iff.mp h)]
      rfl

/-- The first occurrence is the next, and the others are those after its first character. -/
theorem exists_of_find?_eq_some (hne : old ≠ []) (h : find? old s = some n) :
    ∃ before c after, s = before ++ c :: after ∧ n = byteLength before ∧
      Editor.occurrences old s =
        before.length :: (Editor.occurrences old after).map ((before ++ [c]).length + ·) := by
  induction s generalizing n with
  | nil =>
    rw [find?, if_neg (by simpa using hne)] at h
    cases h
  | cons c s ih =>
    rw [find?] at h
    split at h
    · next hfirst =>
      rw [List.isPrefixOf_iff_prefix] at hfirst
      exact ⟨[], c, s, rfl, (Option.some.inj h).symm, by
        rw [Editor.occurrences_cons, if_pos hfirst]
        rfl⟩
    · next hno =>
      rw [List.isPrefixOf_iff_prefix] at hno
      obtain ⟨m, hm, rfl⟩ := Option.map_eq_some_iff.mp h
      obtain ⟨before, d, after, rfl, rfl, hoccurs⟩ := ih hm
      refine ⟨c :: before, d, after, rfl, rfl, ?_⟩
      rw [Editor.occurrences_cons, if_neg hno, hoccurs, List.nil_append, List.map_cons,
        List.map_map, List.length_cons, Nat.add_comm 1]
      congr 1
      refine List.map_congr_left fun k _ => ?_
      simp only [Function.comp_apply, List.cons_append, List.length_cons]
      omega

end Finding

/-! ### Every step is in range -/

/-- One round of seeking on. -/
theorem occurrencesFrom_step {s old left here : List Char} {start offset place on : Nat}
    (hleft : slice s start (byteLength s) = .ok left) (hfind : find? old left = some offset)
    (hplace : add start offset = .ok place) (hhere : slice s place (byteLength s) = .ok here)
    (hon : add place (stepOver here) = .ok on) :
    occurrencesFrom s old start =
      if byteLength s < on then .ok [place]
      else (occurrencesFrom s old on).map (place :: ·) := by
  rw [occurrencesFrom, hleft]
  simp only
  rw [hfind]
  simp only
  split
  · next h => simp [hplace] at h
  · next place' h =>
    obtain rfl : place = place' := Except.ok.inj (hplace.symm.trans h)
    rw [hhere]
    simp only
    split
    · next h => simp [hon] at h
    · next on' h =>
      obtain rfl : on = on' := Except.ok.inj (hon.symm.trans h)
      rfl

theorem occurrencesFrom_eq {s old : List Char} (fits : byteLength s < 2 ^ 63) (hne : old ≠ [])
    (before left : List Char) (hs : s = before ++ left) :
    occurrencesFrom s old (byteLength before) = .ok ((Editor.occurrences old left).map fun k =>
      byteLength before + byteLength (left.take k)) := by
  -- on what is left: past an occurrence it is shorter by its first character at least
  induction hlength : left.length using Nat.strongRecOn generalizing before left with
  | ind length ih =>
    cases hfind : find? old left with
    | none =>
      rw [occurrencesFrom, hs, slice_rest]
      simp only
      rw [hfind, occurrences_of_find?_eq_none hfind]
      rfl
    | some offset =>
      obtain ⟨mid, c, after, rfl, rfl, hoccurs⟩ := exists_of_find?_eq_some hne hfind
      have hmid : s = (before ++ mid) ++ c :: after := by rw [hs, List.append_assoc]
      have hafter : s = (before ++ mid ++ [c]) ++ after := by simp [hs]
      have hlong : byteLength (before ++ mid ++ [c]) ≤ byteLength s :=
        byteLength_mono ⟨after, hafter.symm⟩
      have hsize : byteLength (before ++ mid ++ [c]) =
          byteLength before + byteLength mid + c.utf8Size := by simp [Nat.add_assoc]
      have hstep := occurrencesFrom_step (hs ▸ slice_rest before _) hfind
        (add_eq (by omega)) (byteLength_append before mid ▸ hmid ▸ slice_rest (before ++ mid) _)
        (add_eq (by simp only [stepOver]; omega))
      have hshorter : after.length < length := by
        rw [← hlength, List.length_append, List.length_cons]
        omega
      have hlater := ih after.length hshorter (before ++ mid ++ [c]) after hafter rfl
      rw [hstep, stepOver, ← hsize, if_neg (by omega), hlater, hoccurs, List.map_cons,
        List.map_map, List.take_left' rfl]
      have hmap : (Editor.occurrences old after).map (fun k =>
            byteLength (before ++ mid ++ [c]) + byteLength (after.take k)) =
          (Editor.occurrences old after).map ((fun k =>
            byteLength before + byteLength ((mid ++ c :: after).take k)) ∘
              ((mid ++ [c]).length + ·)) := by
        refine List.map_congr_left fun k _ => ?_
        rw [Function.comp_apply, List.append_cons mid c after, List.take_length_add_append]
        simp [Nat.add_assoc]
      rw [← hmap]
      rfl

/-- **Every step of seeking occurrences is in range**, and they are those that are found
character by character. -/
theorem occurrences_eq {s old : List Char} (fits : byteLength s < 2 ^ 63) (hne : old ≠ []) :
    occurrences s old =
      .ok ((Editor.occurrences old s).map fun k => byteLength (s.take k)) := by
  have h := occurrencesFrom_eq fits hne [] s rfl
  simpa [occurrences] using h

/-! ### Around an occurrence -/

/-- What is before an occurrence, the occurrence, and what is after it make up the text. -/
theorem append_of_mem_occurrences {s old : List Char} {k : Nat}
    (h : k ∈ Editor.occurrences old s) : s.take k ++ old ++ s.drop (k + old.length) = s := by
  obtain ⟨rest, hrest⟩ := Editor.prefix_of_mem_occurrences h
  rw [← List.drop_drop, ← hrest, List.drop_left, List.append_assoc, hrest, List.take_append_drop]

theorem byteLength_occurrence_le {s old : List Char} {k : Nat}
    (h : k ∈ Editor.occurrences old s) : byteLength (s.take k) + byteLength old ≤ byteLength s := by
  rw [← byteLength_append]
  exact byteLength_mono ⟨_, append_of_mem_occurrences h⟩

/-- What is after an occurrence is the slice from where it ends on. -/
theorem slice_after_occurrence {s old : List Char} {k : Nat}
    (h : k ∈ Editor.occurrences old s) :
    slice s (byteLength (s.take k) + byteLength old) (byteLength s) =
      .ok (s.drop (k + old.length)) := by
  have hrest := slice_rest (s.take k ++ old) (s.drop (k + old.length))
  rwa [append_of_mem_occurrences h, byteLength_append] at hrest

theorem length_le_byteLength (s : List Char) : s.length ≤ byteLength s := by
  induction s with
  | nil => exact Nat.le_refl _
  | cons c s ih =>
    have hpos := c.utf8Size_pos
    rw [List.length_cons, byteLength_cons]
    omega

theorem newlines_le (s : List Char) : Lines.newlines s ≤ byteLength s :=
  Nat.le_trans List.count_le_length (length_le_byteLength s)

/-- **Counting the lines up to an occurrence** is in range. -/
theorem lineAt_eq {s : List Char} (fits : byteLength s < 2 ^ 63) (k : Nat) :
    lineAt s (byteLength (s.take k)) = .ok (Editor.lineAt s k) := by
  have hcount := newlines_le (s.take k)
  have hlong : byteLength (s.take k) ≤ byteLength s := byteLength_mono (List.take_prefix k s)
  rw [lineAt, slice_of_isPrefix (List.take_prefix k s), Attempt.ok_bind, add_eq (by omega)]
  rfl

end Workbench.Checked
