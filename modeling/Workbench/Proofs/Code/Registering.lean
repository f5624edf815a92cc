/-
# Languages of extensions

A registry is a map from extensions to languages in which the spelling of an extension counts
only up to its normal form. A selection from it knows the listed extensions alone.

* `Registry.get?_register`, `Registry.get?_select` — **what a registry knows** after an
  extension is registered, and after extensions are selected.
* `normalExtension_lowered` — an extension without dots is normal once it is in lowercase;
  `normalExtension_normalExtension` — a normal form is its own normal form.
-/

import Mathlib
import Workbench.Code.Language

namespace Workbench.Code

variable {extension other : String} {language : Language}

/-! ### Normal forms -/

/-- An extension in lowercase. -/
def lowered (extension : String) : String :=
  String.ofList (extension.toList.map Char.toLower)

theorem toLower_eq_dot_iff {c : Char} : c.toLower = '.' ↔ c = '.' := by
  constructor
  · intro hdot
    have halpha : c.isAlpha = false := by
      rw [← Char.isLower_toLower_eq_isAlpha, hdot]
      rfl
    have hupper : ¬ c.isUpper = true := (Bool.or_eq_false_iff.mp halpha).1 ▸ Bool.false_ne_true
    rwa [Char.toLower_eq_of_not_isUpper hupper] at hdot
  · rintro rfl
    rfl

theorem map_toLower_map_toLower (cs : List Char) :
    (cs.map Char.toLower).map Char.toLower = cs.map Char.toLower := by
  rw [List.map_map]
  exact List.map_congr_left fun c _ => Char.toLower_toLower_eq_toLower c

/-- Dots are dropped before a text is put in lowercase, or after it. -/
theorem dropWhile_dot_map_toLower (cs : List Char) :
    (cs.map Char.toLower).dropWhile (· == '.') = (cs.dropWhile (· == '.')).map Char.toLower := by
  rw [List.dropWhile_map]
  congr 2
  funext c
  rw [Function.comp, Bool.eq_iff_iff, beq_iff_eq, beq_iff_eq, toLower_eq_dot_iff]

theorem dropWhile_dot_of_head? {cs : List Char} (h : cs.head? ≠ some '.') :
    cs.dropWhile (· == '.') = cs := by
  cases cs with
  | nil => rfl
  | cons c rest =>
      have hc : c ≠ '.' := fun hdot => h (congrArg some hdot)
      rw [List.dropWhile_cons_of_neg (by simpa using hc)]

theorem normalExtension_lowered (h : '.' ∉ extension.toList) :
    normalExtension (lowered extension) = lowered extension := by
  have hdots : extension.toList.dropWhile (· == '.') = extension.toList :=
    dropWhile_dot_of_head? fun hhead => h (List.mem_of_head? hhead)
  unfold normalExtension lowered
  rw [String.toList_ofList, dropWhile_dot_map_toLower, hdots, map_toLower_map_toLower]

theorem normalExtension_normalExtension :
    normalExtension (normalExtension extension) = normalExtension extension := by
  unfold normalExtension
  rw [String.toList_ofList, dropWhile_dot_map_toLower, List.dropWhile_idempotent,
    map_toLower_map_toLower]

namespace Registry

variable {r selected : Registry}

/-- The spelling of an extension does not matter. -/
theorem get?_congr (h : normalExtension extension = normalExtension other) :
    r.get? extension = r.get? other := by
  rw [get?, get?, h]

theorem find?_put {key wanted : String} (entries : List (String × Language)) :
    ((put key language entries).find? (·.1 == wanted)).map (·.2) =
      if key = wanted then some language else (entries.find? (·.1 == wanted)).map (·.2) := by
  induction entries with
  | nil => by_cases h : key = wanted <;> simp [put, h]
  | cons entry rest ih =>
      obtain ⟨found, old⟩ := entry
      by_cases hfound : found = key
      · by_cases h : key = wanted <;> simp [put, hfound, h]
      · rw [put, if_neg hfound]
        by_cases hwanted : found = wanted
        · have hkey : key ≠ wanted := fun h => hfound (hwanted.trans h.symm)
          simp [hwanted, hkey]
        · simpa [hwanted] using ih

/-- **A registered extension** has its language, and all others have the ones that they had. -/
theorem get?_register : (r.register extension language).get? other =
    if normalExtension extension = normalExtension other then some language
    else r.get? other :=
  find?_put r.entries

/-- One step of a selection. -/
def selecting (r selected : Registry) (extension : String) : Registry :=
  match r.get? extension with
  | some language => selected.register extension language
  | none => selected

theorem get?_selecting
    (hsame : selected.get? extension = none ∨ selected.get? extension = r.get? extension) :
    (r.selecting selected other).get? extension =
      if normalExtension other = normalExtension extension then r.get? extension
      else selected.get? extension := by
  unfold selecting
  by_cases h : normalExtension other = normalExtension extension
  · rw [get?_congr h, if_pos h]
    cases hget : r.get? extension with
    | none => simpa [hget] using hsame
    | some language => simp [get?_register, h]
  · rw [if_neg h]
    cases r.get? other with
    | none => rfl
    | some language => simp [get?_register, h]

/-- **A selected extension** has the language that it had, and all others have none. -/
theorem get?_select {wanted : List String} : (r.select wanted).get? extension =
    if ∃ x ∈ wanted, normalExtension x = normalExtension extension then r.get? extension
    else none := by
  -- What is selected so far has the same language or none, so that nothing is replaced.
  have hfold (selected : Registry)
      (hsame : selected.get? extension = none ∨ selected.get? extension = r.get? extension) :
      (wanted.foldl r.selecting selected).get? extension =
        if ∃ x ∈ wanted, normalExtension x = normalExtension extension then r.get? extension
        else selected.get? extension := by
    induction wanted generalizing selected with
    | nil => simp
    | cons x rest ih =>
        have hstep : (r.selecting selected x).get? extension =
            if normalExtension x = normalExtension extension then r.get? extension
            else selected.get? extension := get?_selecting hsame
        rw [List.foldl_cons, ih]
        · by_cases h : normalExtension x = normalExtension extension <;> simp [hstep, h]
        · by_cases h : normalExtension x = normalExtension extension
          · exact .inr (hstep.trans (if_pos h))
          · rw [hstep, if_neg h]
            exact hsame
  exact hfold empty (.inl rfl)

end Registry

end Workbench.Code
