/-
# Fences in written texts

A text that is written in quotes has the fences that it has without them: a fence is neither
escaped nor made by escaping. What a reply holds between its first two fences is therefore a
matter of how many there are (`fences`).

* `splitAtFence_flatMap` — **the first fence of an escaped text** is that of the text.
* `fences_flatMap` — a text has as many fences when it is escaped.
* `fencedBlock?_eq_none_iff` — a block is found where there are two fences.
-/

import Mathlib.Tactic.SplitIfs
import Workbench.Index.Explanation

namespace Workbench.Index

open Workbench.Json Workbench.Text

variable {s t cs front before after : List Char} {c : Char}

/-- The fences of a text, from the left, none of which overlaps the one before it. -/
def fences : List Char → Nat
  | '\x60' :: '\x60' :: '\x60' :: rest => fences rest + 1
  | _ :: rest => fences rest
  | [] => 0

/-! ### The first fence -/

theorem splitAtFence_cons (c : Char) (s : List Char) :
    splitAtFence (c :: s) =
      if fence.isPrefixOf (c :: s) then some ([], s.drop 2)
      else (splitAtFence s).map fun (before, after) => (c :: before, after) := rfl

theorem splitAtFence_fence (s : List Char) : splitAtFence (fence ++ s) = some ([], s) := by
  simp [fence, splitAtFence]

theorem isPrefixOf_fence_of_ne (hc : c ≠ '\x60') (s : List Char) :
    fence.isPrefixOf (c :: s) = false := by
  simp [fence, List.isPrefixOf, hc.symm]

/-- Characters that are no backticks stand before the first fence. -/
theorem splitAtFence_append (hfront : '\x60' ∉ front) (s : List Char) :
    splitAtFence (front ++ s) =
      (splitAtFence s).map fun (before, after) => (front ++ before, after) := by
  induction front with
  | nil => simp
  | cons c front ih =>
      obtain ⟨hc, hmore⟩ : ¬ '\x60' = c ∧ '\x60' ∉ front := by simpa using hfront
      rw [List.cons_append, splitAtFence_cons, isPrefixOf_fence_of_ne (Ne.symm hc), ih hmore]
      simp [Function.comp_def]

theorem splitAtFence_eq_none_of_not_mem (h : '\x60' ∉ s) : splitAtFence s = none := by
  have := splitAtFence_append h []
  simpa [splitAtFence] using this

theorem eq_of_splitAtFence (h : splitAtFence s = some (before, after)) :
    s = before ++ fence ++ after := by
  induction s generalizing before with
  | nil => cases h
  | cons c s ih =>
      rw [splitAtFence_cons] at h
      split at h
      · next hfence =>
          obtain ⟨rfl, rfl⟩ : [] = before ∧ s.drop 2 = after := by simpa using h
          obtain ⟨t, ht⟩ := List.isPrefixOf_iff_prefix.mp hfence
          obtain ⟨rfl, rfl⟩ : '\x60' = c ∧ '\x60' :: '\x60' :: t = s := by
            simpa [fence] using ht
          rfl
      · obtain ⟨⟨b, a⟩, hsplit, heq⟩ := Option.map_eq_some_iff.mp h
        obtain ⟨rfl, rfl⟩ : c :: b = before ∧ a = after := by simpa using heq
        rw [ih hsplit]
        simp

theorem length_after_lt (h : splitAtFence s = some (before, after)) : after.length < s.length := by
  rw [eq_of_splitAtFence h]
  simp [fence]
  omega

/-- A fence does not reach over a character that is no backtick. -/
theorem isPrefixOf_fence_append (hc : c ≠ '\x60') (s t : List Char) :
    fence.isPrefixOf (s ++ c :: t) = fence.isPrefixOf s := by
  rcases s with _ | ⟨x, _ | ⟨y, _ | ⟨z, s⟩⟩⟩ <;> simp [fence, List.isPrefixOf, hc.symm]

/-- **The first fence of two texts** with a character between them that is no backtick is that
of the first one, if it has one. -/
theorem splitAtFence_glue (hc : c ≠ '\x60') (s t : List Char) :
    splitAtFence (s ++ c :: t) =
      match splitAtFence s with
      | some (before, after) => some (before, after ++ c :: t)
      | none => (splitAtFence t).map fun (before, after) => (s ++ c :: before, after) := by
  induction s with
  | nil =>
      rw [List.nil_append, splitAtFence_cons, isPrefixOf_fence_of_ne hc]
      rfl
  | cons d s ih =>
      have hprefix := isPrefixOf_fence_append hc (d :: s) t
      rw [List.cons_append] at hprefix
      rw [List.cons_append, splitAtFence_cons, splitAtFence_cons d s, hprefix]
      split_ifs with hfence
      · obtain ⟨u, hu⟩ := List.isPrefixOf_iff_prefix.mp hfence
        obtain ⟨rfl, rfl⟩ : '\x60' = d ∧ '\x60' :: '\x60' :: u = s := by simpa [fence] using hu
        rfl
      · rw [ih]
        cases splitAtFence s with
        | none => simp [Function.comp_def]
        | some parts => rfl

theorem splitAtFence_concat_append (hc : c ≠ '\x60') (s t : List Char) :
    splitAtFence (s ++ [c] ++ t) =
      match splitAtFence (s ++ [c]) with
      | some (before, after) => some (before, after ++ t)
      | none => (splitAtFence t).map fun (before, after) => (s ++ [c] ++ before, after) := by
  rw [List.append_assoc, List.singleton_append, splitAtFence_glue hc s t, splitAtFence_glue hc s []]
  cases splitAtFence s with
  | none => simp [splitAtFence]
  | some parts => simp

/-! ### Escaped texts -/

theorem escape_backtick : Writer.escape '\x60' = ['\x60'] := by decide

theorem not_mem_escape (hc : c ≠ '\x60') : '\x60' ∉ Writer.escape c := by
  have hdigit : ∀ n < 32,
      '\x60' ≠ Octets.hexDigit (n / 16) ∧ '\x60' ≠ Octets.hexDigit (n % 16) := by decide
  unfold Writer.escape
  split_ifs with _ _ _ _ _ _ _ hcontrol
  all_goals try decide
  · simpa using hdigit c.toNat hcontrol
  · simpa using Ne.symm hc

theorem exists_escape (c : Char) : ∃ d ds, Writer.escape c = d :: ds := by
  unfold Writer.escape
  split_ifs <;> exact ⟨_, _, rfl⟩

/-- As many backticks begin an escaped text as begin the text. -/
theorem isPrefixOf_flatMap (n : Nat) (cs : List Char) :
    (List.replicate n '\x60').isPrefixOf (cs.flatMap Writer.escape) =
      (List.replicate n '\x60').isPrefixOf cs := by
  induction n generalizing cs with
  | zero => simp
  | succ n ih =>
      cases cs with
      | nil => rfl
      | cons c cs =>
          by_cases hc : c = '\x60'
          · subst hc
            simp [List.replicate_succ, escape_backtick, ih]
          · obtain ⟨d, ds, hd⟩ := exists_escape c
            have hne := not_mem_escape hc
            rw [hd] at hne
            have hdne : ('\x60' == d) = false := beq_false_of_ne fun heq => hne (heq ▸ .head _)
            have hcne : ('\x60' == c) = false := beq_false_of_ne (Ne.symm hc)
            simp [List.replicate_succ, List.isPrefixOf, hd, hdne, hcne]

/-- **The first fence of an escaped text** is that of the text. -/
theorem splitAtFence_flatMap (cs : List Char) :
    splitAtFence (cs.flatMap Writer.escape) =
      (splitAtFence cs).map fun (before, after) =>
        (before.flatMap Writer.escape, after.flatMap Writer.escape) := by
  induction cs with
  | nil => rfl
  | cons c cs ih =>
      have hprefix := isPrefixOf_flatMap 3 (c :: cs)
      rw [show List.replicate 3 '\x60' = fence from rfl] at hprefix
      by_cases hc : c = '\x60'
      · subst hc
        rw [List.flatMap_cons, escape_backtick, List.singleton_append] at hprefix ⊢
        rw [splitAtFence_cons, splitAtFence_cons, hprefix]
        split_ifs with hfence
        · obtain ⟨u, hu⟩ := List.isPrefixOf_iff_prefix.mp hfence
          obtain rfl : '\x60' :: '\x60' :: u = cs := by simpa [fence] using hu
          simp [escape_backtick]
        · simp [ih, Function.comp_def, escape_backtick]
      · rw [List.flatMap_cons, splitAtFence_append (not_mem_escape hc), ih, splitAtFence_cons c cs,
          isPrefixOf_fence_of_ne hc]
        simp [Function.comp_def]

/-! ### How many fences there are -/

theorem fences_cons_of_ne (hc : c ≠ '\x60') (s : List Char) : fences (c :: s) = fences s := by
  rw [fences]
  rintro rest rfl
  exact absurd rfl hc

theorem fences_append (hfront : '\x60' ∉ front) (s : List Char) :
    fences (front ++ s) = fences s := by
  induction front with
  | nil => rfl
  | cons c front ih =>
      obtain ⟨hc, hmore⟩ : ¬ '\x60' = c ∧ '\x60' ∉ front := by simpa using hfront
      rw [List.cons_append, fences_cons_of_ne (Ne.symm hc), ih hmore]

theorem fences_of_splitAtFence (h : splitAtFence s = some (before, after)) :
    fences s = fences after + 1 := by
  induction s generalizing before with
  | nil => cases h
  | cons c s ih =>
      rw [splitAtFence_cons] at h
      split at h
      · next hfence =>
          obtain ⟨t, ht⟩ := List.isPrefixOf_iff_prefix.mp hfence
          obtain ⟨rfl, rfl⟩ : '\x60' = c ∧ '\x60' :: '\x60' :: t = s := by
            simpa [fence] using ht
          obtain ⟨-, rfl⟩ : [] = before ∧ t = after := by simpa using h
          rw [fences]
      · next hfence =>
          obtain ⟨⟨b, a⟩, hsplit, heq⟩ := Option.map_eq_some_iff.mp h
          obtain ⟨-, rfl⟩ : c :: b = before ∧ a = after := by simpa using heq
          rw [fences, ih hsplit]
          rintro rest rfl rfl
          simp [fence] at hfence

theorem fences_of_splitAtFence_eq_none (h : splitAtFence s = none) : fences s = 0 := by
  induction s with
  | nil => rfl
  | cons c s ih =>
      rw [splitAtFence_cons] at h
      split at h
      · cases h
      · next hfence =>
          rw [fences, ih (by simpa using h)]
          rintro rest rfl rfl
          simp [fence] at hfence

theorem splitAtFence_eq_none_iff : splitAtFence s = none ↔ fences s = 0 := by
  constructor
  · exact fences_of_splitAtFence_eq_none
  · intro hzero
    cases hsplit : splitAtFence s with
    | none => rfl
    | some parts =>
        rw [fences_of_splitAtFence hsplit] at hzero
        cases hzero

/-- Two texts have the fences of both, with a character between them that is no backtick. -/
theorem fences_glue (hc : c ≠ '\x60') (s t : List Char) :
    fences (s ++ c :: t) = fences s + fences t := by
  induction hn : s.length using Nat.strongRecOn generalizing s with
  | ind n ih =>
      have hsplit := splitAtFence_glue hc s t
      cases hs : splitAtFence s with
      | none =>
          rw [fences_of_splitAtFence_eq_none hs, Nat.zero_add]
          rw [hs] at hsplit
          cases ht : splitAtFence t with
          | none =>
              rw [ht] at hsplit
              rw [fences_of_splitAtFence_eq_none hsplit, fences_of_splitAtFence_eq_none ht]
          | some parts =>
              rw [ht] at hsplit
              rw [fences_of_splitAtFence hsplit, fences_of_splitAtFence ht]
      | some parts =>
          obtain ⟨before, after⟩ := parts
          rw [hs] at hsplit
          rw [fences_of_splitAtFence hsplit, fences_of_splitAtFence hs,
            ih _ (hn ▸ length_after_lt hs) after rfl]
          omega

theorem fences_append_right (s : List Char) (ht : '\x60' ∉ t) : fences (s ++ t) = fences s := by
  have hzero : ∀ {u : List Char}, '\x60' ∉ u → fences u = 0 := fun hu =>
    fences_of_splitAtFence_eq_none (splitAtFence_eq_none_of_not_mem hu)
  cases t with
  | nil => rw [List.append_nil]
  | cons c t =>
      obtain ⟨hc, hmore⟩ : ¬ '\x60' = c ∧ '\x60' ∉ t := by simpa using ht
      rw [fences_glue (Ne.symm hc), hzero hmore, Nat.add_zero]

/-- **A text has as many fences when it is escaped.** -/
theorem fences_flatMap (cs : List Char) : fences (cs.flatMap Writer.escape) = fences cs := by
  induction hn : cs.length using Nat.strongRecOn generalizing cs with
  | ind n ih =>
      have hsplit := splitAtFence_flatMap cs
      cases hcs : splitAtFence cs with
      | none =>
          rw [hcs] at hsplit
          rw [fences_of_splitAtFence_eq_none hcs, fences_of_splitAtFence_eq_none hsplit]
      | some parts =>
          obtain ⟨before, after⟩ := parts
          rw [hcs] at hsplit
          rw [fences_of_splitAtFence hcs, fences_of_splitAtFence hsplit,
            ih _ (hn ▸ length_after_lt hcs) after rfl]

/-! ### Blocks -/

theorem ne_backtick_of_isTagLetter (hc : isTagLetter c = true) : c ≠ '\x60' := by
  rintro rfl
  cases hc

theorem fences_dropWhile (s : List Char) : fences (s.dropWhile isTagLetter) = fences s := by
  have htag : '\x60' ∉ s.takeWhile isTagLetter := fun mem =>
    ne_backtick_of_isTagLetter (List.all_eq_true.mp List.all_takeWhile _ mem) rfl
  have hsplit := fences_append htag (s.dropWhile isTagLetter)
  rwa [List.takeWhile_append_dropWhile, eq_comm] at hsplit

theorem fencedBlock?_eq_some_iff {block : List Char} :
    fencedBlock? s = some block ↔ ∃ before after rest, splitAtFence s = some (before, after) ∧
      splitAtFence (after.dropWhile isTagLetter) = some (block, rest) := by
  simp [fencedBlock?, Option.bind_eq_some_iff]

/-- **A block is found where there are two fences.** -/
theorem fencedBlock?_eq_none_iff : fencedBlock? s = none ↔ fences s ≤ 1 := by
  cases hsplit : splitAtFence s with
  | none => simp [fencedBlock?, hsplit, fences_of_splitAtFence_eq_none hsplit]
  | some parts =>
      obtain ⟨before, after⟩ := parts
      rw [fences_of_splitAtFence hsplit, ← fences_dropWhile after]
      cases hend : splitAtFence (after.dropWhile isTagLetter) with
      | none => simp [fencedBlock?, hsplit, hend, fences_of_splitAtFence_eq_none hend]
      | some parts =>
          rw [fences_of_splitAtFence hend]
          simp [fencedBlock?, hsplit, hend]

end Workbench.Index
