/-
# Computations that the machine may stop

Sizes, offsets and line numbers are words of 64 bits. A sum that does not fit in one or a
difference below zero stops the machine, and so do a remainder by zero, a slice that leaves
its list or cuts a character, and groups of no elements. The memory may run out too, when a
text is as long as half of the words can count; nothing that a program checks can rule
that out.

* `Trap` — why the machine stops; `Checked` — a computation that it may stop.
* `add`, `sub`, `rem`, `slice`, `part`, `hold` — the steps at which it may.
* `Tracks` — a computation gives a value unless the memory runs out, and on the way no other
  trap is met; `Tracks.bind` — step by step.
-/

import Mathlib.Algebra.Group.Nat.Defs
import Workbench.Proofs.Attempt
import Workbench.Proofs.Text.Position

namespace Workbench

open Workbench.Text

/-- Why the machine stops. -/
inductive Trap where
  /-- There is no room for a text of so many bytes, or a list of so many items. -/
  | memory (size : Nat)
  | overflow
  | slice
  | remainder
  | group
  deriving DecidableEq, Repr

/-- A computation that the machine may stop. -/
abbrev Checked (α : Type) := Except Trap α

namespace Checked

variable {α β : Type}

/-! ### Words -/

/-- A sum of words. -/
def add (a b : Nat) : Checked Nat :=
  if a + b < 2 ^ 64 then .ok (a + b) else .error .overflow

/-- A difference of words. -/
def sub (a b : Nat) : Checked Nat :=
  if b ≤ a then .ok (a - b) else .error .overflow

/-- A remainder of words. -/
def rem (a b : Nat) : Checked Nat :=
  if b = 0 then .error .remainder else .ok (a % b)

/-- A word taken for a signed one. -/
def signed (a : Nat) : Checked Nat :=
  if a < 2 ^ 63 then .ok a else .error .overflow

theorem add_eq {a b : Nat} (h : a + b < 2 ^ 64) : add a b = .ok (a + b) :=
  if_pos h

theorem sub_eq {a b : Nat} (h : b ≤ a) : sub a b = .ok (a - b) :=
  if_pos h

theorem rem_eq {a b : Nat} (h : 0 < b) : rem a b = .ok (a % b) :=
  if_neg (by omega)

theorem signed_eq {a : Nat} (h : a < 2 ^ 63) : signed a = .ok a :=
  if_pos h

theorem add_of_eq_ok {a b n : Nat} (h : add a b = .ok n) : a + b = n := by
  unfold add at h
  split at h
  · exact Except.ok.inj h
  · cases h

theorem sub_of_eq_ok {a b n : Nat} (h : sub a b = .ok n) : a - b = n := by
  unfold sub at h
  split at h
  · exact Except.ok.inj h
  · cases h

/-! ### Lists and texts -/

/-- The part of a list from one index to before another. -/
def part (xs : List α) (i j : Nat) : Checked (List α) :=
  if i ≤ j ∧ j ≤ xs.length then .ok ((xs.take j).drop i) else .error .slice

/-- The element of a list at an index. -/
def item (xs : List α) (i : Nat) : Checked α :=
  match xs[i]? with
  | some x => .ok x
  | none => .error .slice

/-- The stretch of a text between two positions. -/
def slice (s : List Char) (i j : Nat) : Checked (List Char) :=
  match slice? s i j with
  | some stretch => .ok stretch
  | none => .error .slice

/-- A text in memory. -/
def hold (s : String) : Checked String :=
  if s.utf8ByteSize < 2 ^ 63 then .ok s else .error (.memory s.utf8ByteSize)

/-- A list in memory. Every item takes a byte at least. -/
def holdAll (xs : List α) : Checked (List α) :=
  if xs.length < 2 ^ 63 then .ok xs else .error (.memory xs.length)

theorem part_eq {xs : List α} {i j : Nat} (hij : i ≤ j) (hj : j ≤ xs.length) :
    part xs i j = .ok ((xs.take j).drop i) :=
  if_pos ⟨hij, hj⟩

theorem item_eq {xs : List α} {i : Nat} {x : α} (h : xs[i]? = some x) : item xs i = .ok x := by
  rw [item, h]

theorem slice_eq {s stretch : List Char} {i j : Nat} (h : slice? s i j = some stretch) :
    slice s i j = .ok stretch := by
  rw [slice, h]

/-- Any stretch of a text is the slice between the positions at which it starts and ends. -/
theorem slice_append (s t u : List Char) :
    slice (s ++ t ++ u) (byteLength s) (byteLength s + byteLength t) = .ok t :=
  slice_eq (slice?_append s t u)

/-- Any beginning of a text is the slice up to where it ends. -/
theorem slice_of_isPrefix {s front : List Char} (h : front <+: s) :
    slice s 0 (byteLength front) = .ok front := by
  obtain ⟨rest, rfl⟩ := h
  simpa using slice_append [] front rest

/-- What is left of a text from a position on. -/
theorem slice_rest (s t : List Char) :
    slice (s ++ t) (byteLength s) (byteLength (s ++ t)) = .ok t := by
  simpa using slice_append s t []

/-! ### The nearest boundaries -/

/-- The last boundary at or before a position, found by going back byte by byte. -/
def floor (s : List Char) (i : Nat) : Checked Nat :=
  if 0 < i ∧ Position.isBoundary s i = false then
    match _hback : sub i 1 with
    | .error trap => .error trap
    | .ok back => floor s back
  else .ok i
termination_by i
decreasing_by
  have := sub_of_eq_ok _hback
  omega

/-- The first boundary at or after a position, found by going on byte by byte. -/
def ceil (s : List Char) (i : Nat) : Checked Nat :=
  if i < byteLength s ∧ Position.isBoundary s i = false then
    match _hon : add i 1 with
    | .error trap => .error trap
    | .ok on => ceil s on
  else .ok (min i (byteLength s))
termination_by byteLength s - i
decreasing_by
  have := add_of_eq_ok _hon
  omega

theorem floor_eq (s : List Char) (i : Nat) : floor s i = .ok (Position.floor s i) := by
  induction i with
  | zero =>
    rw [floor, if_neg (by omega)]
    rfl
  | succ i ih =>
    rw [floor, Position.floor]
    cases hb : Position.isBoundary s (i + 1) with
    | true => simp
    | false =>
      rw [if_pos ⟨by omega, rfl⟩, if_neg (by simp)]
      split
      · next hback => simp [sub_eq] at hback
      · next back hback =>
        obtain rfl : i = back := sub_of_eq_ok hback
        exact ih

theorem ceil_eq {s : List Char} (fits : byteLength s < 2 ^ 63) (i : Nat) :
    ceil s i = .ok (Position.ceil s i) := by
  fun_induction Position.ceil s i with
  | case1 i h ih =>
    rw [ceil, if_pos h]
    split
    · next hon =>
      rw [add_eq (by omega)] at hon
      cases hon
    · next on hon =>
      obtain rfl : i + 1 = on := add_of_eq_ok hon
      exact ih
  | case2 i h => rw [ceil, if_neg h]

/-- Going on from a position ends after every place before it. -/
theorem lt_of_ceil {s : List Char} {i n : Nat} {last : Nat} (hi : i < byteLength s) (hn : i < n)
    (h : ceil s n = .ok last) : i < last := by
  fun_induction ceil s n with
  | case1 n hinside trap hon => cases h
  | case2 n hinside on hon ih =>
    have := add_of_eq_ok hon
    exact ih (by omega) h
  | case3 n hstop =>
    have := Except.ok.inj h
    omega

/-! ### Values that are reached -/

/-- The computation gives the value, unless a text is too long for the memory; no other trap
is met. -/
def Tracks (x : Checked α) (a : α) : Prop :=
  x = .ok a ∨ ∃ size, 2 ^ 63 ≤ size ∧ x = .error (.memory size)

namespace Tracks

variable {x : Checked α} {f : α → Checked β} {a : α} {b : β}

theorem of_eq (h : x = .ok a) : Tracks x a :=
  .inl h

/-- One step after the other. -/
theorem bind (hx : Tracks x a) (hf : Tracks (f a) b) : Tracks (x >>= f) b := by
  rcases hx with rfl | ⟨size, hsize, rfl⟩
  · exact hf
  · exact .inr ⟨size, hsize, rfl⟩

theorem map {x : Checked α} {a : α} (hx : Tracks x a) (f : α → β) : Tracks (x.map f) (f a) := by
  rcases hx with rfl | ⟨size, hsize, rfl⟩
  · exact .of_eq rfl
  · exact .inr ⟨size, hsize, rfl⟩

/-- A text that is used from here on is in memory, and so not too long. -/
theorem hold_bind {s : String} {f : String → Checked β}
    (hf : s.utf8ByteSize < 2 ^ 63 → Tracks (f s) b) : Tracks (hold s >>= f) b := by
  unfold hold
  split
  · next hfits => exact hf hfits
  · next hlong => exact .inr ⟨_, Nat.le_of_not_lt hlong, rfl⟩

theorem holdAll_bind {xs : List α} {f : List α → Checked β}
    (hf : xs.length < 2 ^ 63 → Tracks (f xs) b) : Tracks (holdAll xs >>= f) b := by
  unfold holdAll
  split
  · next hfits => exact hf hfits
  · next hlong => exact .inr ⟨_, Nat.le_of_not_lt hlong, rfl⟩

end Tracks

end Checked

end Workbench
