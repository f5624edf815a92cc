/-
# Work in groups

A list is worked off in groups of a size, one after the other. Nothing is left out and
nothing comes twice (`flatten_groups`), so if every step does with its part what is
asked for, all of them do it with the whole list, whatever the size is
(`CodebaseIndex.ends_steps`), and what every step keeps is kept by all of them
(`CodebaseIndex.steps_kept`).
-/

import Workbench.Index.Codebase

namespace Workbench.Index

variable {α β π : Type}

/-! ### Groups -/

theorem flatten_groups (size : Nat) (xs : List α) : (groups size xs).flatten = xs := by
  induction xs using groups.induct size with
  | case1 => rw [groups, List.flatten_nil]
  | case2 x rest ih =>
      rw [groups, List.flatten_cons, ih, List.cons_append, List.take_append_drop]

theorem mem_of_mem_groups {size : Nat} {xs part : List α} {x : α} (hpart : part ∈ groups size xs)
    (hx : x ∈ part) : x ∈ xs := by
  rw [← flatten_groups size xs]
  exact List.mem_flatten.mpr ⟨part, hpart, hx⟩

namespace CodebaseIndex

/-! ### Steps -/

/-- A step succeeds and leads to where it should. -/
def Ends (done : π → Prop) (r : Except IndexFault Unit × π) : Prop :=
  r.1 = .ok () ∧ done r.2

/-- **Steps together** do what each of them does with its part. -/
theorem ends_steps {step : π → α → Except IndexFault Unit × π} {out : α → List β}
    {done : List β → π → Prop} {xs : List α}
    (hstep : ∀ x ∈ xs, ∀ sofar p, done sofar p → Ends (done (sofar ++ out x)) (step p x))
    {sofar : List β} {p : π} (h : done sofar p) :
    Ends (done (sofar ++ xs.flatMap out)) (steps step xs p) := by
  induction xs generalizing sofar p with
  | nil => exact ⟨rfl, by simpa [steps] using h⟩
  | cons x rest ih =>
      have hfirst := hstep x (.head _) sofar p h
      rw [steps]
      match hx : step p x with
      | (.error fault, after) => simp [hx, Ends] at hfirst
      | (.ok (), after) =>
          rw [hx] at hfirst
          have hrest := ih (fun y mem => hstep y (.tail _ mem)) hfirst.2
          rwa [List.append_assoc, ← List.flatMap_cons] at hrest

/-- Steps that all succeed do together what each of them does when it succeeds. -/
theorem steps_done {step : π → α → Except IndexFault Unit × π} (out : α → List β)
    (done : List β → π → Prop) {xs : List α} {p after : π}
    (hstep : ∀ x ∈ xs, ∀ sofar p after, done sofar p → step p x = (.ok (), after) →
      done (sofar ++ out x) after)
    (sofar : List β) (h : done sofar p) (hrun : steps step xs p = (.ok (), after)) :
    done (sofar ++ xs.flatMap out) after := by
  induction xs generalizing sofar p with
  | nil =>
      obtain rfl : p = after := congrArg Prod.snd hrun
      simpa using h
  | cons x rest ih =>
      rw [steps] at hrun
      match hx : step p x with
      | (.error fault, stopped) => simp [hx] at hrun
      | (.ok (), next) =>
          rw [hx] at hrun
          have hrest := ih (fun y mem => hstep y (.tail _ mem)) _
            (hstep x (.head _) sofar p next h hx) hrun
          rwa [List.append_assoc, ← List.flatMap_cons] at hrest

/-- What every step that succeeds keeps is kept by all of them when they succeed. -/
theorem steps_succeeded (kept : π → Prop) {step : π → α → Except IndexFault Unit × π}
    {xs : List α} {p after : π}
    (hstep : ∀ x ∈ xs, ∀ p after, kept p → step p x = (.ok (), after) → kept after)
    (h : kept p) (hrun : steps step xs p = (.ok (), after)) : kept after :=
  steps_done (fun _ => ([] : List Unit)) (fun _ => kept)
    (fun x mem _ p after => hstep x mem p after) [] h hrun

/-- **What every step keeps** is kept by all of them together, whether one fails or not. -/
theorem steps_kept (kept : π → Prop) {step : π → α → Except IndexFault Unit × π} {xs : List α}
    (hstep : ∀ x ∈ xs, ∀ p, kept p → kept (step p x).2) {p : π} (h : kept p) :
    kept (steps step xs p).2 := by
  induction xs generalizing p with
  | nil => exact h
  | cons x rest ih =>
      have hfirst := hstep x (.head _) p h
      rw [steps]
      match hx : step p x with
      | (.error fault, after) => rwa [hx] at hfirst
      | (.ok (), after) =>
          rw [hx] at hfirst
          exact ih (fun y mem => hstep y (.tail _ mem)) hfirst

end CodebaseIndex

end Workbench.Index
