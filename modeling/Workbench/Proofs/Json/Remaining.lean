/-
# What is left of a text

A reader takes characters off the front of a text, and what it leaves is the rest of it. So a
text that is a list ends in the bracket that closes it.

* `Reader.remaining` — **what a reader leaves is the end of the text**, by the steps it has.
* `Value.exists_of_parse_array` — a text that is a list ends in a bracket and blanks.
-/

import Workbench.Proofs.Json.Reading

namespace Workbench.Json

namespace Reader

variable {wanted first more : Bool} {fuel depth n : Nat} {s t rest read cs : List Char} {c : Char}
  {v : Value} {vs : List Value} {text : String} {known fs : List (String × Value)}

/-! ### Strings -/

theorem isSuffix_of_skipBlanks (h : rest <:+ skipBlanks s) : rest <:+ s :=
  h.trans (List.dropWhile_suffix _)

theorem word_isSuffix {letters : List Char} (h : word letters s = .ok rest) : rest <:+ s := by
  induction letters generalizing s with
  | nil =>
      obtain rfl : s = rest := by simpa [word] using h
      exact List.suffix_refl s
  | cons letter letters ih =>
      cases s with
      | nil => cases h
      | cons c s =>
          by_cases hc : c = letter
          · rw [word, if_pos hc] at h
            exact (ih h).trans (List.suffix_cons c s)
          · simp [word, hc, after] at h

theorem hexEscape_isSuffix (h : hexEscape s = .ok (n, rest)) : rest <:+ s := by
  unfold hexEscape at h
  split at h
  · next a b c d s =>
      cases hdigits : fourDigits? a b c d with
      | none => simp [hdigits, after] at h
      | some m =>
          obtain ⟨-, rfl⟩ : m = n ∧ s = rest := by simpa [hdigits] using h
          exact List.suffix_append [a, b, c, d] s
  · cases h

theorem unicodeEscape_isSuffix (h : unicodeEscape wanted s = .ok (c, rest)) : rest <:+ s := by
  simp only [unicodeEscape, Attempt.bind_eq_ok_iff] at h
  obtain ⟨⟨n, t⟩, hhex, h⟩ := h
  refine List.IsSuffix.trans ?_ (hexEscape_isSuffix hhex)
  dsimp only at h
  split at h
  · obtain ⟨-, rfl⟩ := Prod.mk.inj (Except.ok.inj h)
    exact List.suffix_refl t
  · split at h
    · cases h
    · split at h
      · obtain ⟨-, rfl⟩ := Prod.mk.inj (Except.ok.inj h)
        exact List.suffix_refl t
      · split at h
        · cases h
        · cases h
        · simp only [Attempt.bind_eq_ok_iff] at h
          obtain ⟨⟨n2, w⟩, hsecond, h⟩ := h
          split at h
          · cases h
          · obtain ⟨-, rfl⟩ := Prod.mk.inj (Except.ok.inj h)
            exact (hexEscape_isSuffix hsecond).trans (List.suffix_append ['\\', 'u'] _)
        · cases h
        · cases h

theorem escape_isSuffix (h : escape wanted s = .ok (c, rest)) : rest <:+ s := by
  unfold escape at h
  split at h
  · cases h
  · next s => exact (unicodeEscape_isSuffix h).trans (List.suffix_cons 'u' s)
  all_goals first
    | (obtain ⟨-, rfl⟩ := Prod.mk.inj (Except.ok.inj h)
       exact List.suffix_cons ..)
    | cases h

theorem stringFrom_isSuffix (h : stringFrom wanted fuel read s = .ok (cs, rest)) : rest <:+ s := by
  induction fuel generalizing read s with
  | zero => cases s <;> cases h
  | succ fuel ih =>
      rcases s with _ | ⟨c, s⟩
      · cases h
      refine List.IsSuffix.trans ?_ (List.suffix_cons c s)
      rw [stringFrom] at h
      split at h
      · obtain ⟨-, rfl⟩ := Prod.mk.inj (Except.ok.inj h)
        exact List.suffix_refl s
      · split at h
        · simp only [Attempt.bind_eq_ok_iff] at h
          obtain ⟨⟨d, t⟩, hescape, h⟩ := h
          exact (ih h).trans (escape_isSuffix hescape)
        · split at h
          · cases h
          · exact ih h

theorem string_isSuffix (h : string wanted s = .ok (text, rest)) : rest <:+ s :=
  stringFrom_isSuffix (string_eq_ok_iff.mp h)

theorem number_isSuffix {negative : Bool} {x : Number}
    (h : number wanted negative s = .ok (x, rest)) : rest <:+ s := by
  obtain ⟨digits, rfl, -⟩ := (number_ok h).taken
  exact List.suffix_append digits rest

/-! ### Values -/

theorem NextItem.isSuffix (h : NextItem first s more t) : t <:+ s := by
  cases h with
  | close => exact List.suffix_refl _
  | first => exact List.suffix_refl _
  | comma hu =>
      exact (isSuffix_of_skipBlanks (hu ▸ List.suffix_refl _)).trans (List.suffix_cons ',' _)

theorem NextField.isSuffix (h : NextField first s more t) : t <:+ s := by
  cases h with
  | close => exact List.suffix_refl _
  | first => exact List.suffix_cons '"' _
  | @comma t u hu =>
      have hquote : '"' :: t <:+ u := isSuffix_of_skipBlanks (hu ▸ List.suffix_refl _)
      exact ((List.suffix_cons '"' t).trans hquote).trans (List.suffix_cons ',' _)

/-- Readers with so many steps leave the end of the text. The closing bracket of a list stands
in front of what is left after it. -/
structure Remaining (wanted : Bool) (fuel : Nat) : Prop where
  value : ∀ {depth s v rest}, value wanted fuel depth s = .ok (v, rest) → rest <:+ s
  items : ∀ {first depth s vs rest}, items wanted first fuel depth s = .ok (vs, rest) →
    ']' :: rest <:+ s
  fields : ∀ {first depth known s fs rest},
    fields wanted first fuel depth known s = .ok (fs, rest) → '\x7d' :: rest <:+ s

theorem Remaining.zero (wanted : Bool) : Remaining wanted 0 where
  value h := by
    rw [Reader.value] at h
    cases h
  items h := by
    rw [Reader.items] at h
    cases h
  fields h := by
    rw [Reader.fields] at h
    cases h

/-- The next step of the induction. -/
theorem Remaining.succ (ih : Remaining wanted fuel) : Remaining wanted (fuel + 1) where
  value := by
    intro depth s v rest h
    have hread := value_eq_ok_iff.mp h
    refine isSuffix_of_skipBlanks ?_
    generalize skipBlanks s = ahead at hread
    cases hread with
    | null hword => exact (word_isSuffix hword).trans (List.suffix_cons ..)
    | true hword => exact (word_isSuffix hword).trans (List.suffix_cons ..)
    | false hword => exact (word_isSuffix hword).trans (List.suffix_cons ..)
    | negative hnumber => exact (number_isSuffix hnumber).trans (List.suffix_cons ..)
    | number _ hnumber => exact number_isSuffix hnumber
    | string hstring => exact (string_isSuffix hstring).trans (List.suffix_cons ..)
    | array _ hitems =>
        exact ((List.suffix_cons ..).trans (ih.items hitems)).trans (List.suffix_cons ..)
    | object _ hfields =>
        exact ((List.suffix_cons ..).trans (ih.fields hfields)).trans (List.suffix_cons ..)
  items := by
    intro first depth s vs rest h
    rcases items_eq_ok_iff.mp h with ⟨t, hnext, -, rfl⟩ | ⟨t, v, u, others, hnext, hvalue, hitems, -⟩
    · obtain ⟨u, rfl⟩ := hnext.eq_cons
      exact isSuffix_of_skipBlanks hnext.isSuffix
    · exact ((ih.items hitems).trans (ih.value hvalue)).trans (isSuffix_of_skipBlanks hnext.isSuffix)
  fields := by
    intro first depth known s fs rest h
    rcases fields_eq_ok_iff.mp h with ⟨t, hnext, -, rfl⟩ |
      ⟨t, name, u, w, v, x, hnext, hstring, hcolon, hvalue, hfields⟩
    · obtain ⟨u, rfl⟩ := hnext.eq_cons
      exact isSuffix_of_skipBlanks hnext.isSuffix
    · have hw : w <:+ u :=
        isSuffix_of_skipBlanks (hcolon ▸ List.suffix_cons ':' w)
      exact (((ih.fields hfields).trans (ih.value hvalue)).trans hw).trans
        ((string_isSuffix hstring).trans (isSuffix_of_skipBlanks hnext.isSuffix))

/-- **What a reader leaves is the end of the text.** -/
theorem remaining (wanted : Bool) (fuel : Nat) : Remaining wanted fuel := by
  induction fuel with
  | zero => exact .zero wanted
  | succ fuel ih => exact ih.succ

end Reader

open Reader

/-- **A text that is a list** ends in a bracket, after which only blanks may follow. -/
theorem Value.exists_of_parse_array {text : String} {vs : List Value}
    (h : Value.parse text = .ok (.array vs)) :
    ∃ front gap, text.toList = front ++ ']' :: gap ∧ skipBlanks gap = [] := by
  obtain ⟨rest, hvalue, hrest⟩ := Value.parse_eq_ok_iff.mp h
  have hread := value_eq_ok_iff.mp hvalue
  generalize hahead : skipBlanks text.toList = ahead at hread
  cases hread with
  | @array t _ _ _ hitems =>
      have hsuffix : '[' :: t <:+ text.toList :=
        isSuffix_of_skipBlanks (hahead ▸ List.suffix_refl _)
      obtain ⟨front, hfront⟩ := (((remaining true _).items hitems).trans (List.suffix_cons '[' t)).trans
        hsuffix
      exact ⟨front, rest, hfront.symm, hrest⟩

end Workbench.Json
