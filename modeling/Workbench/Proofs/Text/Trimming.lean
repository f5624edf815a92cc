/-
# Texts without the blanks at their ends

* `trim_isPrefix` — what is left of a text begins with its first character that is not blank.
* `toList_trim_of_ends` — **blanks around a text** whose two ends are not blank are all that
  is taken away.
-/

import Mathlib.Data.List.DropRight
import Workbench.Text.Letters

namespace Workbench.Text

theorem toList_trim (s : String) :
    (trim s).toList = (s.toList.dropWhile isBlank).rdropWhile isBlank := by
  rw [trim, String.toList_ofList, List.rdropWhile]

theorem trim_isPrefix (s : String) : (trim s).toList <+: s.toList.dropWhile isBlank := by
  rw [toList_trim]
  exact List.rdropWhile_prefix _ _

/-- **Blanks around a text** are taken away, and nothing else if its two ends are not blank. -/
theorem toList_trim_of_ends {opening middle closing : List Char} {first last : Char}
    (hopening : ∀ c ∈ opening, isBlank c = true) (hclosing : ∀ c ∈ closing, isBlank c = true)
    (hfirst : isBlank first = false) (hlast : isBlank last = false) :
    (trim (String.ofList (opening ++ (first :: middle ++ [last]) ++ closing))).toList =
      first :: middle ++ [last] := by
  have hfront : (opening ++ (first :: middle ++ [last]) ++ closing).dropWhile isBlank =
      first :: middle ++ [last] ++ closing := by
    rw [List.append_assoc, List.dropWhile_append_of_pos hopening, List.cons_append,
      List.cons_append, List.dropWhile_cons_of_neg (by simp [hfirst])]
  have hback : (first :: middle ++ [last] ++ closing).reverse.dropWhile isBlank =
      (first :: middle ++ [last]).reverse := by
    rw [List.reverse_append, List.dropWhile_append_of_pos (by simpa using hclosing),
      List.reverse_append, List.reverse_singleton, List.singleton_append,
      List.dropWhile_cons_of_neg (by simp [hlast])]
  rw [toList_trim, String.toList_ofList, hfront, List.rdropWhile, hback, List.reverse_reverse]

end Workbench.Text
