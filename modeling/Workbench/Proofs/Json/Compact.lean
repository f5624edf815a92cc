/-
# Values on one line

A value in which no number occurs is read back from its compact form, with the fields of its
objects in order. That form is one line, whatever texts are in the value: the characters that
would end the line are escaped.

* `Textual` — no number occurs in a value, and it is nested up to a bound.
* `Value.ordered` — a value with the fields of its objects in order.
* `Value.parse_compact` — **a value is read back from its compact form**.
* `Textual.printable` — no control character is in the compact form.
-/

import Workbench.Proofs.Json.Quoting

namespace Workbench.Json

open Workbench.Text

/-- No number occurs in a value, and its lists and objects are nested up to a bound. -/
inductive Textual : Nat → Value → Prop where
  | null (bound : Nat) : Textual bound .null
  | bool (bound : Nat) (b : Bool) : Textual bound (.bool b)
  | string (bound : Nat) (s : String) : Textual bound (.string s)
  | array {bound : Nat} {vs : List Value} :
      (∀ v ∈ vs, Textual bound v) → Textual (bound + 1) (.array vs)
  | object {bound : Nat} {fs : List (String × Value)} :
      (∀ f ∈ fs, Textual bound f.2) → Textual (bound + 1) (.object fs)

namespace Value

mutual

/-- A value with the fields of its objects in order. -/
def ordered : Value → Value
  | .array items => .array (orderedItems items)
  | .object fields => .object (orderedFields [] fields)
  | .null => .null
  | .bool b => .bool b
  | .number n => .number n
  | .string s => .string s

/-- Items whose objects have their fields in order. -/
def orderedItems : List Value → List Value
  | [] => []
  | item :: rest => ordered item :: orderedItems rest

/-- Fields in order, with those that are known already. -/
def orderedFields (known : List (String × Value)) : List (String × Value) → List (String × Value)
  | [] => known
  | (name, value) :: rest => orderedFields (insert name (ordered value) known) rest

end

end Value

variable {bound fuel depth : Nat} {v : Value} {vs : List Value} {fs known : List (String × Value)}
  {rest : List Char} {c : Char}

/-! ### The parts of a written value -/

/-- What follows the first of some parts: a comma in front of each. -/
def commas (parts : List (List Char)) : List Char :=
  parts.flatMap (',' :: ·)

theorem join_cons (part : List Char) (parts : List (List Char)) :
    Writer.join [','] (part :: parts) = part ++ commas parts := by
  induction parts generalizing part with
  | nil => simp [Writer.join, commas]
  | cons next parts ih => simp [Writer.join, ih, commas]

theorem compactItems_eq_map (vs : List Value) :
    Writer.compactItems vs = vs.map Writer.compact := by
  induction vs with
  | nil => rfl
  | cons v vs ih => rw [Writer.compactItems, ih, List.map_cons]

theorem compactFields_eq_map (fs : List (String × Value)) :
    Writer.compactFields fs = fs.map fun f => Writer.quote f.1 ++ ':' :: Writer.compact f.2 := by
  induction fs with
  | nil => rfl
  | cons f fs ih => rw [Writer.compactFields, ih, List.map_cons]

/-- A written value begins with a character that begins an item. -/
theorem Textual.exists_compact (h : Textual bound v) :
    ∃ c t, Writer.compact v = c :: t ∧ Reader.isBlank c = false ∧ c ≠ ']' := by
  cases h with
  | null => exact ⟨'n', _, rfl, by decide, by decide⟩
  | bool _ b => cases b <;> exact ⟨_, _, rfl, by decide, by decide⟩
  | string => exact ⟨'"', _, rfl, by decide, by decide⟩
  | array => exact ⟨'[', _, rfl, by decide, by decide⟩
  | object => exact ⟨'\x7b', _, rfl, by decide, by decide⟩

theorem Textual.length_pos (h : Textual bound v) : 0 < (Writer.compact v).length := by
  obtain ⟨c, t, hcompact, -⟩ := h.exists_compact
  simp [hcompact]

/-! ### Reading back -/

namespace Reader

/-- A value is read back from its compact form, whatever follows, in as many steps as the form
has characters. -/
def ReadBack (bound : Nat) (v : Value) : Prop :=
  ∀ fuel depth rest, (Writer.compact v).length ≤ fuel → bound < depth →
    value true fuel depth (Writer.compact v ++ rest) = .ok (v.ordered, rest)

theorem skipBlanks_of_isBlank (hc : isBlank c = false) (s : List Char) :
    skipBlanks (c :: s) = c :: s :=
  List.dropWhile_cons_of_neg (by simp [hc])

/-- The items after the first one are read back. -/
theorem items_commas (rest : List Char) (htext : ∀ v ∈ vs, Textual bound v)
    (h : ∀ v ∈ vs, ReadBack bound v)
    (hfuel : (commas (Writer.compactItems vs)).length < fuel) (hdepth : bound < depth) :
    items true false fuel depth (commas (Writer.compactItems vs) ++ ']' :: rest) =
      .ok (Value.orderedItems vs, rest) := by
  obtain ⟨fuel, rfl⟩ : ∃ fewer, fuel = fewer + 1 := ⟨fuel - 1, by omega⟩
  induction vs generalizing fuel with
  | nil =>
      rw [items_eq_ok_iff]
      exact .inl ⟨_, .close, rfl, rfl⟩
  | cons v vs ih =>
      obtain ⟨c, t, hcompact, hblank, hclose⟩ := (htext v (.head _)).exists_compact
      simp only [Writer.compactItems, commas, List.flatMap_cons, List.length_append,
        List.length_cons] at hfuel
      obtain ⟨fuel, rfl⟩ : ∃ fewer, fuel = fewer + 1 := ⟨fuel - 1, by omega⟩
      have hvalue := h v (.head _) (fuel + 1) depth (commas (Writer.compactItems vs) ++ ']' :: rest)
        (by omega) hdepth
      have hmore := ih (fun w mem => htext w (.tail _ mem)) (fun w mem => h w (.tail _ mem)) fuel
        (by rw [commas]; omega)
      have hnext : NextItem false (',' :: (Writer.compact v ++
          (commas (Writer.compactItems vs) ++ ']' :: rest))) true
          (Writer.compact v ++ (commas (Writer.compactItems vs) ++ ']' :: rest)) := by
        rw [hcompact]
        exact .comma (skipBlanks_of_isBlank hblank _) hclose
      rw [items_eq_ok_iff, Writer.compactItems, commas, List.flatMap_cons, List.append_assoc]
      exact .inr ⟨_, _, _, _, hnext, hvalue, hmore, rfl⟩

theorem readBack_array (htext : ∀ v ∈ vs, Textual bound v) (h : ∀ v ∈ vs, ReadBack bound v) :
    ReadBack (bound + 1) (.array vs) := by
  intro fuel depth rest hfuel hdepth
  cases vs with
  | nil =>
      have hlength : (Writer.compact (.array [])).length = 2 := rfl
      obtain ⟨fuel, rfl⟩ : ∃ fewer, fuel = fewer + 2 := ⟨fuel - 2, by omega⟩
      refine value_eq_ok_iff.mpr (.array (fun _ => by omega) ?_)
      exact items_eq_ok_iff.mpr (.inl ⟨_, .close, rfl, rfl⟩)
  | cons v vs =>
      obtain ⟨c, t, hcompact, hblank, hclose⟩ := (htext v (.head _)).exists_compact
      have hlength := (htext v (.head _)).length_pos
      rw [Writer.compact, Writer.compactItems, join_cons] at hfuel ⊢
      simp only [List.length_cons, List.length_append, List.length_nil] at hfuel
      obtain ⟨fuel, rfl⟩ : ∃ fewer, fuel = fewer + 2 := ⟨fuel - 2, by omega⟩
      have hvalue := h v (.head _) fuel (depth - 1) (commas (Writer.compactItems vs) ++ ']' :: rest)
        (by omega) (by omega)
      have hmore := items_commas rest (fun w mem => htext w (.tail _ mem))
        (fun w mem => h w (.tail _ mem)) (by omega : _ < fuel) (by omega : bound < depth - 1)
      have hnext : NextItem true (skipBlanks (Writer.compact v ++
          (commas (Writer.compactItems vs) ++ ']' :: rest))) true
          (Writer.compact v ++ (commas (Writer.compactItems vs) ++ ']' :: rest)) := by
        rw [hcompact, List.cons_append, skipBlanks_of_isBlank hblank]
        exact .first hclose
      simp only [List.cons_append, List.append_assoc, List.nil_append]
      refine value_eq_ok_iff.mpr (.array (fun _ => by omega) ?_)
      exact items_eq_ok_iff.mpr (.inr ⟨_, _, _, _, hnext, hvalue, hmore, rfl⟩)

/-- The fields after the first one are read back. -/
theorem fields_commas (known : List (String × Value)) (rest : List Char)
    (h : ∀ f ∈ fs, ReadBack bound f.2)
    (hfuel : (commas (Writer.compactFields fs)).length < fuel) (hdepth : bound < depth) :
    fields true false fuel depth known (commas (Writer.compactFields fs) ++ '\x7d' :: rest) =
      .ok (Value.orderedFields known fs, rest) := by
  obtain ⟨fuel, rfl⟩ : ∃ fewer, fuel = fewer + 1 := ⟨fuel - 1, by omega⟩
  induction fs generalizing fuel known with
  | nil =>
      rw [fields_eq_ok_iff]
      exact .inl ⟨_, .close, rfl, rfl⟩
  | cons f fs ih =>
      obtain ⟨name, v⟩ := f
      simp only [Writer.compactFields, commas, List.flatMap_cons, List.length_append,
        List.length_cons] at hfuel
      obtain ⟨fuel, rfl⟩ : ∃ fewer, fuel = fewer + 1 := ⟨fuel - 1, by omega⟩
      have hvalue := h (name, v) (.head _) (fuel + 1) depth
        (commas (Writer.compactFields fs) ++ '\x7d' :: rest) (by dsimp only; omega) hdepth
      have hmore := ih (Value.insert name v.ordered known) (fun g mem => h g (.tail _ mem)) fuel
        (by rw [commas]; omega)
      have hname := string_quote name (':' :: (Writer.compact v ++
        (commas (Writer.compactFields fs) ++ '\x7d' :: rest)))
      rw [fields_eq_ok_iff, Writer.compactFields, commas, List.flatMap_cons, Writer.quote]
      simp only [List.append_assoc, List.cons_append, List.nil_append]
      exact .inr ⟨_, name, _, _, _, _, .comma rfl, hname, rfl, hvalue, hmore⟩

theorem readBack_object (h : ∀ f ∈ fs, ReadBack bound f.2) :
    ReadBack (bound + 1) (.object fs) := by
  intro fuel depth rest hfuel hdepth
  cases fs with
  | nil =>
      have hlength : (Writer.compact (.object [])).length = 2 := rfl
      obtain ⟨fuel, rfl⟩ : ∃ fewer, fuel = fewer + 2 := ⟨fuel - 2, by omega⟩
      refine value_eq_ok_iff.mpr (.object (fun _ => by omega) ?_)
      exact fields_eq_ok_iff.mpr (.inl ⟨_, .close, rfl, rfl⟩)
  | cons f fs =>
      obtain ⟨name, v⟩ := f
      rw [Writer.compact, Writer.compactFields, join_cons, Writer.quote] at hfuel ⊢
      simp only [List.length_cons, List.length_append, List.length_nil] at hfuel
      obtain ⟨fuel, rfl⟩ : ∃ fewer, fuel = fewer + 2 := ⟨fuel - 2, by omega⟩
      have hvalue := h (name, v) (.head _) fuel (depth - 1)
        (commas (Writer.compactFields fs) ++ '\x7d' :: rest) (by dsimp only; omega) (by omega)
      have hmore := fields_commas (Value.insert name v.ordered []) rest
        (fun g mem => h g (.tail _ mem)) (by omega : _ < fuel) (by omega : bound < depth - 1)
      have hname := string_quote name (':' :: (Writer.compact v ++
        (commas (Writer.compactFields fs) ++ '\x7d' :: rest)))
      simp only [List.cons_append, List.append_assoc, List.nil_append]
      refine value_eq_ok_iff.mpr (.object (fun _ => by omega) ?_)
      exact fields_eq_ok_iff.mpr (.inr ⟨_, name, _, _, _, _, .first, hname, rfl, hvalue, hmore⟩)

theorem readBack (h : Textual bound v) : ReadBack bound v := by
  have hlength := h.length_pos
  induction h with
  | array htext ih => exact readBack_array htext fun v mem => ih v mem (htext v mem).length_pos
  | object htext ih => exact readBack_object fun f mem => ih f mem (htext f mem).length_pos
  | null =>
      intro fuel depth rest hfuel _
      obtain ⟨fuel, rfl⟩ : ∃ fewer, fuel = fewer + 1 := ⟨fuel - 1, by omega⟩
      exact value_eq_ok_iff.mpr (.null rfl)
  | bool _ b =>
      intro fuel depth rest hfuel _
      obtain ⟨fuel, rfl⟩ : ∃ fewer, fuel = fewer + 1 := ⟨fuel - 1, by omega⟩
      cases b with
      | true => exact value_eq_ok_iff.mpr (.true rfl)
      | false => exact value_eq_ok_iff.mpr (.false rfl)
  | string _ s =>
      intro fuel depth rest hfuel _
      obtain ⟨fuel, rfl⟩ : ∃ fewer, fuel = fewer + 1 := ⟨fuel - 1, by omega⟩
      rw [Writer.compact, Writer.quote, List.cons_append, List.cons_append, List.append_assoc]
      exact value_eq_ok_iff.mpr (.string (string_quote s rest))

end Reader

open Reader

/-- **A value is read back from its compact form**, its fields in order. -/
theorem Value.parse_compact (h : Textual bound v) (hbound : bound < depthLimit) :
    Value.parse v.compact = .ok v.ordered := by
  refine Value.parse_eq_ok_iff.mpr ⟨[], ?_, rfl⟩
  have hread :=
    readBack h (fuelFor (Writer.compact v)) depthLimit [] (by rw [fuelFor]; omega) hbound
  have htext : v.compact.toList = Writer.compact v := String.toList_ofList
  rwa [List.append_nil, ← htext] at hread

/-! ### One line -/

theorem printable_escape (c : Char) : ∀ d ∈ Writer.escape c, 32 ≤ d.toNat := by
  have hdigit : ∀ n < 16, 32 ≤ (Octets.hexDigit n).toNat := by decide
  unfold Writer.escape
  split_ifs with _ _ _ _ _ _ _ hcontrol
  all_goals
    simp only [List.forall_mem_cons, List.not_mem_nil, false_implies, implies_true, and_true]
  all_goals try decide
  · exact ⟨by decide, by decide, by decide, by decide, hdigit _ (by omega), hdigit _ (by omega)⟩
  · omega

theorem printable_quote (s : String) : ∀ c ∈ Writer.quote s, 32 ≤ c.toNat := by
  intro c mem
  simp only [Writer.quote, List.mem_append, List.mem_cons, List.mem_flatMap, List.not_mem_nil,
    or_false] at mem
  rcases mem with (rfl | ⟨d, -, mem⟩) | rfl
  · decide
  · exact printable_escape d c mem
  · decide

/-- Parts between commas are printable if each of them is. -/
theorem printable_join {parts : List (List Char)} (h : ∀ part ∈ parts, ∀ c ∈ part, 32 ≤ c.toNat) :
    ∀ c ∈ Writer.join [','] parts, 32 ≤ c.toNat := by
  intro c mem
  cases parts with
  | nil => cases mem
  | cons part parts =>
      rw [join_cons, List.mem_append, commas, List.mem_flatMap] at mem
      rcases mem with mem | ⟨other, hother, mem⟩
      · exact h part (.head _) c mem
      · rcases List.mem_cons.mp mem with rfl | mem
        · decide
        · exact h other (.tail _ hother) c mem

/-- **No control character** is in the compact form of a value without numbers. -/
theorem Textual.printable (h : Textual bound v) : ∀ c ∈ Writer.compact v, 32 ≤ c.toNat := by
  -- A value in brackets is printable with the parts between them.
  have hbrackets {opening closing : Char} {parts : List (List Char)} (hopening : 32 ≤ opening.toNat)
      (hclosing : 32 ≤ closing.toNat) (hparts : ∀ part ∈ parts, ∀ c ∈ part, 32 ≤ c.toNat) :
      ∀ c ∈ opening :: Writer.join [','] parts ++ [closing], 32 ≤ c.toNat := by
    intro c mem
    rcases List.mem_append.mp mem with mem | mem
    · rcases List.mem_cons.mp mem with rfl | mem
      · exact hopening
      · exact printable_join hparts c mem
    · exact List.mem_singleton.mp mem ▸ hclosing
  induction h with
  | null => simp [Writer.compact]
  | bool _ b => cases b <;> simp [Writer.compact]
  | string _ s => exact printable_quote s
  | @array bound vs _ ih =>
      refine hbrackets (by decide) (by decide) ?_
      rw [compactItems_eq_map, List.forall_mem_map]
      exact ih
  | @object bound fs _ ih =>
      refine hbrackets (by decide) (by decide) ?_
      rw [compactFields_eq_map, List.forall_mem_map]
      intro f mem c hc
      rcases List.mem_append.mp hc with hc | hc
      · exact printable_quote f.1 c hc
      · rcases List.mem_cons.mp hc with rfl | hc
        · decide
        · exact ih f mem c hc

end Workbench.Json
