/-
# Spellings reduced

Two written paths are spellings of one place when leaving out parts that name nothing,
and names together with the `..` after them, ends with the same parts. Where it ends does
not depend on the order, and a path can be read from what is left: it leads above the
root exactly when a `..` is left, and to what is left otherwise.

* `Path.Reduces`, `Path.NormalForm` — leaving out a part, or a name and the `..` after it.
* `Path.normalForm_iff` — **there is one normal form**, and reading the parts once finds it.
* `Path.cancel_names` — **what a written path is read as** is its normal form.
* `Path.dots_mem_normal_iff` — a `..` is left when a path climbs above where it starts.
-/

import Mathlib.Data.List.Induction
import Mathlib.Logic.Relation
import Mathlib.Tactic.ByContra
import Mathlib.Tactic.Push
import Workbench.Proofs.Files.Spelling

namespace Workbench.Files.Path

/-- The parts of a written path. -/
def written (text : String) : List String :=
  (parts text.toList).map String.ofList

/-- A part that names nothing, and can be left out. -/
def IsIdle (part : String) : Prop :=
  part = "" ∨ part = "."

instance (part : String) : Decidable (IsIdle part) :=
  inferInstanceAs (Decidable (_ ∨ _))

/-- A part that leads further down. -/
def Descends (part : String) : Prop :=
  ¬ IsIdle part ∧ part ≠ ".."

instance (part : String) : Decidable (Descends part) :=
  inferInstanceAs (Decidable (_ ∧ _))

/-- One part that names nothing is left out, or a name with the `..` after it. -/
inductive Reduces : List String → List String → Prop where
  | idle (front : List String) {part : String} (rest : List String) (hidle : IsIdle part) :
      Reduces (front ++ part :: rest) (front ++ rest)
  | back (front : List String) {name : String} (rest : List String) (hname : Descends name) :
      Reduces (front ++ name :: ".." :: rest) (front ++ rest)

/-- What is left of the parts of a path when nothing more can be left out. -/
structure NormalForm (parts left : List String) : Prop where
  reached : Relation.ReflTransGen Reduces parts left
  ended : ∀ other, ¬ Reduces left other

/-- One more part is read, the last one first; a `..` that no name stands before is kept. -/
def settle (here : List String) (part : String) : List String :=
  if IsIdle part then here
  else if part = ".." then
    match here with
    | [] => [part]
    | last :: above => if last = ".." then part :: last :: above else above
  else part :: here

/-- The parts of a path read one after the other. -/
def normal (parts : List String) : List String :=
  (parts.foldl settle []).reverse

variable {parts others left front rest here : List String} {part name : String}

/-! ### One more part -/

theorem settle_idle (h : IsIdle part) (here : List String) : settle here part = here :=
  if_pos h

theorem settle_descends (h : Descends name) (here : List String) :
    settle here name = name :: here := by
  rw [settle.eq_def, if_neg h.1, if_neg h.2]

theorem settle_back (h : name ≠ "..") (above : List String) :
    settle (name :: above) ".." = above := by
  simp [settle, IsIdle, h]

theorem settle_kept (h : ∀ name ∈ here.head?, name = "..") : settle here ".." = ".." :: here := by
  cases here with
  | nil => simp [settle, IsIdle]
  | cons last above =>
      obtain rfl : last = ".." := h last (by simp)
      simp [settle, IsIdle]

/-- A part is left out, or leads further down, or is a `..`. -/
theorem part_cases (part : String) : IsIdle part ∨ Descends part ∨ part = ".." := by
  by_cases hidle : IsIdle part
  · exact .inl hidle
  · by_cases hup : part = ".."
    · exact .inr (.inr hup)
    · exact .inr (.inl ⟨hidle, hup⟩)

/-- A `..` that is kept stays. -/
theorem dots_mem_settle (h : ".." ∈ here) (part : String) : ".." ∈ settle here part := by
  rcases part_cases part with hidle | hname | rfl
  · rwa [settle_idle hidle]
  · rw [settle_descends hname]
    exact .tail _ h
  · cases here with
    | nil => simp at h
    | cons last above =>
        by_cases hlast : last = ".."
        · rw [settle_kept (by simp [hlast])]
          exact .head _
        · rw [settle_back hlast]
          exact (List.mem_cons.mp h).resolve_left (Ne.symm hlast)

theorem dots_mem_foldl (h : ".." ∈ here) (parts : List String) :
    ".." ∈ parts.foldl settle here := by
  induction parts generalizing here with
  | nil => exact h
  | cons part rest ih => exact ih (dots_mem_settle h part)

/-! ### Normal forms -/

/-- Reading the parts does not depend on what can be left out. -/
theorem Reduces.normal_eq (h : Reduces parts others) : normal parts = normal others := by
  cases h with
  | idle front rest hidle =>
      rw [normal, normal, List.foldl_append, List.foldl_append, List.foldl_cons,
        settle_idle hidle]
  | back front rest hname =>
      rw [normal, normal, List.foldl_append, List.foldl_append, List.foldl_cons, List.foldl_cons,
        settle_descends hname, settle_back hname.2]

theorem normal_eq_of_reflTransGen (h : Relation.ReflTransGen Reduces parts others) :
    normal parts = normal others := by
  induction h with
  | refl => rfl
  | tail _ hstep ih => exact ih.trans hstep.normal_eq

theorem Reduces.append_right (h : Reduces parts others) (rest : List String) :
    Reduces (parts ++ rest) (others ++ rest) := by
  cases h with
  | idle front more hidle => simpa using Reduces.idle front (more ++ rest) hidle
  | back front more hname => simpa using Reduces.back front (more ++ rest) hname

/-- What cannot be reduced is read as it is. -/
theorem normal_eq_self (h : ∀ other, ¬ Reduces parts other) : normal parts = parts := by
  induction parts using List.reverseRecOn with
  | nil => rfl
  | append_singleton front part ih =>
      have hfront : front.foldl settle [] = front.reverse :=
        List.reverse_eq_iff.mp (ih fun other hstep => h _ (hstep.append_right [part]))
      rw [normal, List.foldl_append, hfront, List.foldl_cons, List.foldl_nil]
      rcases part_cases part with hidle | hname | rfl
      · exact absurd (Reduces.idle front [] hidle) (h _)
      · rw [settle_descends hname, List.reverse_cons, List.reverse_reverse]
      · -- A name before the `..` could be left out with it, and so could an idle part.
        have hlast : ∀ last ∈ front.reverse.head?, last = ".." := by
          intro last mem
          rw [List.head?_reverse] at mem
          obtain ⟨init, rfl⟩ := List.getLast?_eq_some_iff.mp mem
          rw [List.append_assoc, List.singleton_append] at h
          rcases part_cases last with hidle | hname | rfl
          · exact absurd (Reduces.idle init [".."] hidle) (h _)
          · exact absurd (Reduces.back init [] hname) (h _)
          · rfl
        rw [settle_kept hlast, List.reverse_cons, List.reverse_reverse]

theorem Reduces.length_lt (h : Reduces parts others) : others.length < parts.length := by
  cases h with
  | idle => simp
  | back =>
      simp only [List.length_append, List.length_cons]
      omega

/-- Leaving out comes to an end. -/
theorem exists_normalForm (parts : List String) : ∃ left, NormalForm parts left := by
  induction hlength : parts.length using Nat.strongRecOn generalizing parts with
  | _ length ih =>
      by_cases hend : ∀ other, ¬ Reduces parts other
      · exact ⟨parts, .refl, hend⟩
      · push Not at hend
        obtain ⟨other, hstep⟩ := hend
        obtain ⟨left, hreached, hended⟩ := ih other.length (hlength ▸ hstep.length_lt) other rfl
        exact ⟨left, .head hstep hreached, hended⟩

/-- **There is one normal form**, and it is found by reading the parts once. -/
theorem normalForm_iff : NormalForm parts left ↔ normal parts = left := by
  have hread {left : List String} (h : NormalForm parts left) : normal parts = left :=
    (normal_eq_of_reflTransGen h.reached).trans (normal_eq_self h.ended)
  constructor
  · exact hread
  · rintro rfl
    obtain ⟨left, h⟩ := exists_normalForm parts
    rwa [hread h]

/-! ### What a written path is read as -/

theorem cancelFrom_filter (h : ".." ∉ here) (parts : List String) :
    cancelFrom here (parts.filter fun name => name != "" && name != ".") =
      if ".." ∈ parts.foldl settle here then none else some (parts.foldl settle here) := by
  induction parts generalizing here with
  | nil => simp [cancelFrom, h]
  | cons part rest ih =>
      rw [List.foldl_cons]
      rcases part_cases part with hidle | hname | rfl
      · have hskip : (part != "" && part != ".") = false := by
          rcases hidle with rfl | rfl <;> rfl
        rw [List.filter_cons_of_neg (by simp [hskip]), settle_idle hidle, ih h]
      · have hkeep : (part != "" && part != ".") = true := by
          simpa [IsIdle, not_or] using hname.1
        rw [List.filter_cons_of_pos (by simpa using hkeep), cancelFrom_cons_of_ne hname.2,
          settle_descends hname]
        exact ih (by simp [h, hname.2.symm])
      · rw [List.filter_cons_of_pos (by decide)]
        cases here with
        | nil =>
            rw [settle_kept (by simp), if_pos (dots_mem_foldl (.head _) rest), cancelFrom]
            rfl
        | cons last above =>
            obtain ⟨hlast, habove⟩ := not_or.mp (mt List.mem_cons.mpr h)
            rw [settle_back (Ne.symm hlast), cancelFrom, if_pos rfl]
            exact ih habove

/-- **What a written path is read as** is its normal form; it leads above the root when a
`..` is left in that. -/
theorem cancel_names (text : String) :
    cancel (names text) =
      if ".." ∈ normal (written text) then none else some (normal (written text)) := by
  rw [cancel, show names text = (written text).filter _ from rfl, cancelFrom_filter (by simp)]
  simp only [normal, List.mem_reverse]
  split
  · rfl
  · rfl

/-! ### Climbing -/

/-- At some point more parts led up than down. -/
def Climbs (parts : List String) : Prop :=
  ∃ front, front <+: parts ∧ front.countP (Descends ·) < front.count ".."

/-- As long as no `..` is kept, what is read has as many parts as the steps down that were
not taken back. -/
theorem length_foldl_settle (h : ".." ∉ parts.foldl settle []) :
    (parts.foldl settle []).length + parts.count ".." = parts.countP (Descends ·) := by
  induction parts using List.reverseRecOn with
  | nil => rfl
  | append_singleton front part ih =>
      rw [List.foldl_append, List.foldl_cons, List.foldl_nil] at h ⊢
      have hfront : ".." ∉ front.foldl settle [] := fun mem => h (dots_mem_settle mem part)
      have hcount := ih hfront
      rw [List.count_append, List.countP_append]
      rcases part_cases part with hidle | hname | rfl
      · have hne : part ≠ ".." := by
          rintro rfl
          exact absurd hidle (by decide)
        have hno : ¬ Descends part := fun hname => hname.1 hidle
        have hups : [part].count ".." = 0 := by simp [hne]
        have hdowns : [part].countP (Descends ·) = 0 := by simp [hno]
        rw [settle_idle hidle]
        omega
      · have hups : [part].count ".." = 0 := by simp [hname.2]
        have hdowns : [part].countP (Descends ·) = 1 := by simp [hname]
        rw [settle_descends hname, List.length_cons]
        omega
      · have hups : [".."].count ".." = 1 := by decide
        have hdowns : [".."].countP (Descends ·) = 0 := by decide
        cases hread : front.foldl settle [] with
        | nil =>
            rw [hread, settle_kept (by simp)] at h
            exact absurd (.head _) h
        | cons last above =>
            have hlast : last ≠ ".." := by
              rintro rfl
              exact hfront (by simp [hread])
            rw [hread, List.length_cons] at hcount
            rw [settle_back hlast]
            omega

/-- **A `..` is left** in the normal form when a path climbs above where it starts. -/
theorem dots_mem_normal_iff : ".." ∈ normal parts ↔ Climbs parts := by
  rw [normal, List.mem_reverse]
  constructor
  · intro h
    induction parts using List.reverseRecOn with
    | nil => simp at h
    | append_singleton front part ih =>
        by_cases hfront : ".." ∈ front.foldl settle []
        · obtain ⟨first, hfirst, hmore⟩ := ih hfront
          exact ⟨first, hfirst.trans (List.prefix_append ..), hmore⟩
        · -- The part is the first `..` that is kept, so nothing is left to take back.
          have hcount := length_foldl_settle hfront
          rw [List.foldl_append, List.foldl_cons, List.foldl_nil] at h
          rcases part_cases part with hidle | hname | rfl
          · rw [settle_idle hidle] at h
            exact absurd h hfront
          · rw [settle_descends hname] at h
            exact absurd ((List.mem_cons.mp h).resolve_left hname.2.symm) hfront
          · have hups : [".."].count ".." = 1 := by decide
            have hdowns : [".."].countP (Descends ·) = 0 := by decide
            refine ⟨front ++ [".."], List.prefix_refl _, ?_⟩
            cases hread : front.foldl settle [] with
            | nil =>
                rw [hread, List.length_nil] at hcount
                rw [List.count_append, List.countP_append]
                omega
            | cons last above =>
                rw [hread, List.mem_cons, not_or] at hfront
                rw [hread, settle_back (Ne.symm hfront.1)] at h
                exact absurd h hfront.2
  · rintro ⟨front, ⟨rest, rfl⟩, hmore⟩
    by_contra h
    rw [List.foldl_append] at h
    have hcount := length_foldl_settle fun mem => h (dots_mem_foldl mem rest)
    omega

end Workbench.Files.Path
