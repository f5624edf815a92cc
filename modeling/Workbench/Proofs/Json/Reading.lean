/-
# Reading values

What a reader of a value has done when it succeeds, step by step (`Reader.ValueRead`), and
that it reads no further than the value: other text may follow, or none. So a text that is a
list or an object is no longer one when it is cut short.

* `Reader.value_eq_ok_iff`, `Reader.items_eq_ok_iff`, `Reader.fields_eq_ok_iff` — **what was
  read**.
* `Reader.value_onward` — **whatever follows a value**, it is read in the same way.
* `Value.parse_of_parse_append` — a text that goes on after a value goes on with blanks.
-/

import Workbench.Proofs.Json.Numerals

namespace Workbench.Json

namespace Reader

open Workbench.Text

variable {wanted first more : Bool} {fuel depth : Nat} {s t rest other : List Char} {c d : Char}
  {v : Value} {vs : List Value} {name text : String} {known fs : List (String × Value)}

/-! ### Blanks -/

theorem skipBlanks_append (h : skipBlanks s ≠ []) (other : List Char) :
    skipBlanks (s ++ other) = skipBlanks s ++ other := by
  unfold skipBlanks at h ⊢
  rw [List.dropWhile_append, if_neg (by simpa using h)]

theorem skipBlanks_of_eq_cons (h : skipBlanks s = c :: rest) (other : List Char) :
    skipBlanks (s ++ other) = c :: (rest ++ other) := by
  rw [skipBlanks_append (by simp [h]), h, List.cons_append]

/-! ### Strings -/

theorem word_onward {letters : List Char} (h : word letters s = .ok rest) (other : List Char) :
    word letters (s ++ other) = .ok (rest ++ other) := by
  induction letters generalizing s with
  | nil =>
      obtain rfl : s = rest := by simpa [word] using h
      rfl
  | cons letter letters ih =>
      cases s with
      | nil => cases h
      | cons c s =>
          by_cases hc : c = letter
          · rw [word, if_pos hc] at h
            rw [List.cons_append, word, if_pos hc, ih h]
          · simp [word, hc, after] at h

theorem hexEscape_onward {n : Nat} (h : hexEscape s = .ok (n, rest)) (other : List Char) :
    hexEscape (s ++ other) = .ok (n, rest ++ other) := by
  unfold hexEscape at h
  split at h
  · next a b c d s =>
      cases hdigits : fourDigits? a b c d with
      | none => simp [hdigits, after] at h
      | some m =>
          obtain ⟨rfl, rfl⟩ : m = n ∧ s = rest := by simpa [hdigits] using h
          simp [hexEscape, hdigits]
  · cases h

theorem unicodeEscape_onward (h : unicodeEscape wanted s = .ok (c, rest)) (other : List Char) :
    unicodeEscape wanted (s ++ other) = .ok (c, rest ++ other) := by
  simp only [unicodeEscape, Attempt.bind_eq_ok_iff] at h
  obtain ⟨⟨n, s⟩, hhex, h⟩ := h
  dsimp only at h
  simp only [unicodeEscape, hexEscape_onward hhex, Attempt.ok_bind]
  split at h
  · next hskip =>
      obtain ⟨rfl, rfl⟩ : '?' = c ∧ s = rest := by simpa using h
      rw [if_pos hskip]
      rfl
  · next hskip =>
      rw [if_neg hskip]
      split at h
      · cases h
      · next hlow =>
          rw [if_neg hlow]
          split at h
          · next hplain =>
              obtain ⟨rfl, rfl⟩ : Char.ofNat n = c ∧ s = rest := by simpa using h
              rw [if_pos hplain]
              rfl
          · next hplain =>
              rw [if_neg hplain]
              split at h
              · cases h
              · cases h
              · next s =>
                  simp only [Attempt.bind_eq_ok_iff] at h
                  obtain ⟨⟨n2, s⟩, hsecond, h⟩ := h
                  simp only [List.cons_append, hexEscape_onward hsecond, Attempt.ok_bind]
                  split at h
                  · cases h
                  · next hpair =>
                      obtain ⟨rfl, rfl⟩ : _ = c ∧ s = rest := by simpa using h
                      rw [if_neg hpair]
                      rfl
              · cases h
              · cases h

theorem escape_onward (h : escape wanted s = .ok (c, rest)) (other : List Char) :
    escape wanted (s ++ other) = .ok (c, rest ++ other) := by
  unfold escape at h
  split at h
  · cases h
  · next s => exact unicodeEscape_onward h other
  all_goals first
    | (obtain ⟨rfl, rfl⟩ := Prod.mk.inj (Except.ok.inj h)
       rfl)
    | cases h

theorem stringFrom_onward {fuel longer : Nat} {read cs : List Char}
    (h : stringFrom wanted fuel read s = .ok (cs, rest)) (hle : fuel ≤ longer) (other : List Char) :
    stringFrom wanted longer read (s ++ other) = .ok (cs, rest ++ other) := by
  induction fuel generalizing longer read s with
  | zero => cases s <;> cases h
  | succ fuel ih =>
      obtain ⟨longer, rfl⟩ : ∃ fewer, longer = fewer + 1 := ⟨longer - 1, by omega⟩
      rcases s with _ | ⟨c, s⟩
      · cases h
      rw [stringFrom] at h
      rw [List.cons_append, stringFrom]
      split at h
      · next hquote =>
          obtain ⟨rfl, rfl⟩ : read.reverse = cs ∧ s = rest := by simpa using h
          rw [if_pos hquote]
      · next hquote =>
          rw [if_neg hquote]
          split at h
          · next hslash =>
              simp only [Attempt.bind_eq_ok_iff] at h
              obtain ⟨⟨d, s⟩, hescape, h⟩ := h
              rw [if_pos hslash, escape_onward hescape, Attempt.ok_bind]
              exact ih h (by omega)
          · next hslash =>
              rw [if_neg hslash]
              split at h
              · cases h
              · next hcontrol =>
                  rw [if_neg hcontrol]
                  exact ih h (by omega)

theorem string_eq_ok_iff :
    string wanted s = .ok (text, rest) ↔
      stringFrom wanted (s.length + 1) [] s = .ok (text.toList, rest) := by
  simp only [string, Attempt.bind_eq_ok_iff]
  constructor
  · rintro ⟨⟨cs, r⟩, h, heq⟩
    obtain ⟨rfl, rfl⟩ : String.ofList cs = text ∧ r = rest := by simpa using heq
    simpa using h
  · intro h
    exact ⟨_, h, by simp⟩

theorem string_onward (h : string wanted s = .ok (text, rest)) (other : List Char) :
    string wanted (s ++ other) = .ok (text, rest ++ other) := by
  rw [string_eq_ok_iff] at h ⊢
  exact stringFrom_onward h (by simp) other

/-! ### Between values -/

/-- What stands in front of the next item of a list, and whether there is one. -/
inductive NextItem : Bool → List Char → Bool → List Char → Prop where
  | close {first : Bool} {t : List Char} : NextItem first (']' :: t) false (']' :: t)
  | first {c : Char} {t : List Char} : c ≠ ']' → NextItem true (c :: t) true (c :: t)
  | comma {c : Char} {t u : List Char} : skipBlanks u = c :: t → c ≠ ']' →
      NextItem false (',' :: u) true (c :: t)

theorem nextItem_eq_ok_iff :
    nextItem wanted first s = .ok (more, rest) ↔ NextItem first (skipBlanks s) more rest := by
  unfold nextItem
  constructor
  · intro h
    split at h
    · cases h
    · next t hs =>
        obtain ⟨rfl, rfl⟩ := Prod.mk.inj (Except.ok.inj h)
        rw [hs]
        exact .close
    · next c t hc hs =>
        rw [hs]
        cases first with
        | true =>
            obtain ⟨rfl, rfl⟩ := Prod.mk.inj (Except.ok.inj h)
            exact .first fun heq => hc heq
        | false =>
            simp only [Bool.false_eq_true, if_false] at h
            split at h
            · next hcomma =>
                subst hcomma
                split at h
                · cases h
                · cases h
                · next hnil hclose =>
                    obtain ⟨rfl, rfl⟩ := Prod.mk.inj (Except.ok.inj h)
                    cases hu : skipBlanks t with
                    | nil => exact absurd hu hnil
                    | cons d u => exact .comma hu fun hd => hclose u (by rw [hu, hd])
            · cases h
  · intro h
    generalize hs : skipBlanks s = ahead at h
    cases h with
    | close => rfl
    | first hc => simp
    | comma hu hc => simp [hu, hc]

/-- What stands in front of the next field of an object, and whether there is one. -/
inductive NextField : Bool → List Char → Bool → List Char → Prop where
  | close {first : Bool} {t : List Char} : NextField first ('\x7d' :: t) false ('\x7d' :: t)
  | first {t : List Char} : NextField true ('"' :: t) true t
  | comma {t u : List Char} : skipBlanks u = '"' :: t → NextField false (',' :: u) true t

theorem nextField_eq_ok_iff :
    nextField wanted first s = .ok (more, rest) ↔ NextField first (skipBlanks s) more rest := by
  unfold nextField
  constructor
  · intro h
    split at h
    · cases h
    · next t hs =>
        obtain ⟨rfl, rfl⟩ := Prod.mk.inj (Except.ok.inj h)
        rw [hs]
        exact .close
    · next c t hc hs =>
        rw [hs]
        cases first with
        | true =>
            simp only [if_true] at h
            split at h
            · next hquote =>
                obtain ⟨rfl, rfl⟩ := Prod.mk.inj (Except.ok.inj h)
                exact hquote ▸ .first
            · cases h
        | false =>
            simp only [Bool.false_eq_true, if_false] at h
            split at h
            · next hcomma =>
                subst hcomma
                split at h
                · cases h
                · next hu =>
                    obtain ⟨rfl, rfl⟩ := Prod.mk.inj (Except.ok.inj h)
                    exact .comma hu
                · cases h
                · cases h
            · cases h
  · intro h
    generalize hs : skipBlanks s = ahead at h
    cases h with
    | close => rfl
    | first => simp
    | comma hu => simp [hu]

theorem colon_eq_ok_iff : colon s = .ok rest ↔ skipBlanks s = ':' :: rest := by
  unfold colon
  split
  · next hs => simp [hs, before]
  · next t hs => simp [hs]
  · next hnil hcolon =>
      constructor
      · intro h
        cases h
      · intro hs
        exact absurd hs (hcolon rest)

/-! ### Values -/

/-- What was read when a value was read, after the blanks in front of it. -/
inductive ValueRead (wanted : Bool) (fuel depth : Nat) : List Char → Value → List Char → Prop where
  | null {s rest : List Char} : word ['u', 'l', 'l'] s = .ok rest →
      ValueRead wanted fuel depth ('n' :: s) .null rest
  | true {s rest : List Char} : word ['r', 'u', 'e'] s = .ok rest →
      ValueRead wanted fuel depth ('t' :: s) (.bool true) rest
  | false {s rest : List Char} : word ['a', 'l', 's', 'e'] s = .ok rest →
      ValueRead wanted fuel depth ('f' :: s) (.bool false) rest
  | negative {s rest : List Char} {n : Number} : number wanted Bool.true s = .ok (n, rest) →
      ValueRead wanted fuel depth ('-' :: s) (.number n) rest
  | number {c : Char} {s rest : List Char} {n : Number} : (digit? c).isSome = Bool.true →
      number wanted Bool.false (c :: s) = .ok (n, rest) →
      ValueRead wanted fuel depth (c :: s) (.number n) rest
  | string {s rest : List Char} {text : String} : string wanted s = .ok (text, rest) →
      ValueRead wanted fuel depth ('"' :: s) (.string text) rest
  | array {s rest : List Char} {vs : List Value} : (wanted = Bool.true → 1 < depth) →
      items wanted Bool.true fuel (depth - 1) s = .ok (vs, rest) →
      ValueRead wanted fuel depth ('[' :: s) (.array vs) rest
  | object {s rest : List Char} {fs : List (String × Value)} : (wanted = Bool.true → 1 < depth) →
      fields wanted Bool.true fuel (depth - 1) [] s = .ok (fs, rest) →
      ValueRead wanted fuel depth ('\x7b' :: s) (.object fs) rest

/-- A value that stands for itself was read when the letters after its first one were. -/
theorem read_eq_ok {read : Except Stop (List Char)} {constant : Value}
    (h : (read >>= fun r => .ok (constant, r)) = .ok (v, rest)) :
    v = constant ∧ read = .ok rest := by
  obtain ⟨r, hread, heq⟩ := Attempt.bind_eq_ok_iff.mp h
  obtain ⟨rfl, rfl⟩ := Prod.mk.inj (Except.ok.inj heq)
  exact ⟨rfl, hread⟩

/-- A value was read when what it is made of was read. -/
theorem exists_of_read {α : Type} {read : Except Stop (α × List Char)} (wrap : α → Value)
    (h : (read >>= fun (a, r) => .ok (wrap a, r)) = .ok (v, rest)) :
    ∃ a, v = wrap a ∧ read = .ok (a, rest) := by
  obtain ⟨⟨a, r⟩, hread, heq⟩ := Attempt.bind_eq_ok_iff.mp h
  obtain ⟨rfl, rfl⟩ := Prod.mk.inj (Except.ok.inj heq)
  exact ⟨a, rfl, hread⟩

/-- What has been read from where, when a value has been read. -/
theorem valueRead_of_value (h : value wanted (fuel + 1) depth s = .ok (v, rest)) :
    ValueRead wanted fuel depth (skipBlanks s) v rest := by
  rw [value] at h
  split at h
  · cases h
  · next t hs =>
      obtain ⟨rfl, hword⟩ := read_eq_ok h
      exact hs ▸ .null hword
  · next t hs =>
      obtain ⟨rfl, hword⟩ := read_eq_ok h
      exact hs ▸ .true hword
  · next t hs =>
      obtain ⟨rfl, hword⟩ := read_eq_ok h
      exact hs ▸ .false hword
  · next t hs =>
      obtain ⟨n, rfl, hnumber⟩ := exists_of_read .number h
      exact hs ▸ .negative hnumber
  · next t hs =>
      obtain ⟨text, rfl, hstring⟩ := exists_of_read .string h
      exact hs ▸ .string hstring
  · next t hs =>
      dsimp only at h
      split at h
      · cases h
      · next hdepth =>
          obtain ⟨vs, rfl, hitems⟩ := exists_of_read .array h
          exact hs ▸ .array (by simpa using hdepth) hitems
  · next t hs =>
      dsimp only at h
      split at h
      · cases h
      · next hdepth =>
          obtain ⟨fs, rfl, hfields⟩ := exists_of_read .object h
          exact hs ▸ .object (by simpa using hdepth) hfields
  · next c t _ _ _ _ _ _ _ hs =>
      split at h
      · next hdigit =>
          obtain ⟨n, rfl, hnumber⟩ := exists_of_read .number h
          exact hs ▸ .number hdigit hnumber
      · cases h

theorem value_of_valueRead (h : ValueRead wanted fuel depth (skipBlanks s) v rest) :
    value wanted (fuel + 1) depth s = .ok (v, rest) := by
  rw [value]
  generalize hs : skipBlanks s = ahead at h
  cases h with
  | null hword => simp [hword]
  | true hword => simp [hword]
  | false hword => simp [hword]
  | negative hnumber => simp [hnumber]
  | string hstring => simp [hstring]
  | array hdepth hitems =>
      have hgo : (wanted && decide (depth ≤ 1)) = false := by simpa using hdepth
      simp [hgo, hitems]
  | object hdepth hfields =>
      have hgo : (wanted && decide (depth ≤ 1)) = false := by simpa using hdepth
      simp [hgo, hfields]
  | @number c t _ _ hdigit hnumber =>
      have hne {d : Char} (hd : (digit? d).isSome = Bool.false) : c ≠ d := by
        rintro rfl
        rw [hd] at hdigit
        cases hdigit
      -- A digit is none of the characters that begin another value.
      split
      case h_9 heq =>
        obtain ⟨rfl, rfl⟩ := List.cons.inj heq
        rw [if_pos hdigit, hnumber]
        rfl
      all_goals next heq =>
        first
        | exact absurd (List.cons.inj heq).1 (hne rfl)
        | cases heq

theorem value_eq_ok_iff :
    value wanted (fuel + 1) depth s = .ok (v, rest) ↔
      ValueRead wanted fuel depth (skipBlanks s) v rest :=
  ⟨valueRead_of_value, value_of_valueRead⟩

theorem items_eq_ok_iff :
    items wanted first (fuel + 1) depth s = .ok (vs, rest) ↔
      (∃ t, NextItem first (skipBlanks s) false t ∧ vs = [] ∧ rest = t.drop 1) ∨
      (∃ t v u others, NextItem first (skipBlanks s) true t ∧
        value wanted fuel depth t = .ok (v, u) ∧
        items wanted false fuel depth u = .ok (others, rest) ∧ vs = v :: others) := by
  rw [items]
  simp only [Attempt.bind_eq_ok_iff, Prod.exists, nextItem_eq_ok_iff]
  constructor
  · rintro ⟨more, t, hnext, h⟩
    cases more with
    | false =>
        obtain ⟨rfl, rfl⟩ := Prod.mk.inj (Except.ok.inj h)
        exact .inl ⟨t, hnext, rfl, rfl⟩
    | true =>
        obtain ⟨⟨v, u⟩, hvalue, h⟩ := Attempt.bind_eq_ok_iff.mp h
        obtain ⟨⟨others, r⟩, hitems, heq⟩ := Attempt.bind_eq_ok_iff.mp h
        obtain ⟨rfl, rfl⟩ := Prod.mk.inj (Except.ok.inj heq)
        exact .inr ⟨t, v, u, others, hnext, hvalue, hitems, rfl⟩
  · rintro (⟨t, hnext, rfl, rfl⟩ | ⟨t, v, u, others, hnext, hvalue, hitems, rfl⟩)
    · exact ⟨false, t, hnext, rfl⟩
    · exact ⟨true, t, hnext, by simp [hvalue, hitems]⟩

theorem fields_eq_ok_iff :
    fields wanted first (fuel + 1) depth known s = .ok (fs, rest) ↔
      (∃ t, NextField first (skipBlanks s) false t ∧ fs = known ∧ rest = t.drop 1) ∨
      (∃ t name u w v x, NextField first (skipBlanks s) true t ∧ string wanted t = .ok (name, u) ∧
        skipBlanks u = ':' :: w ∧ value wanted fuel depth w = .ok (v, x) ∧
        fields wanted false fuel depth (Value.insert name v known) x = .ok (fs, rest)) := by
  rw [fields]
  simp only [Attempt.bind_eq_ok_iff, Prod.exists, nextField_eq_ok_iff]
  constructor
  · rintro ⟨more, t, hnext, h⟩
    cases more with
    | false =>
        obtain ⟨rfl, rfl⟩ := Prod.mk.inj (Except.ok.inj h)
        exact .inl ⟨t, hnext, rfl, rfl⟩
    | true =>
        obtain ⟨⟨name, u⟩, hstring, h⟩ := Attempt.bind_eq_ok_iff.mp h
        obtain ⟨w, hcolon, h⟩ := Attempt.bind_eq_ok_iff.mp h
        obtain ⟨⟨v, x⟩, hvalue, hfields⟩ := Attempt.bind_eq_ok_iff.mp h
        exact .inr ⟨t, name, u, w, v, x, hnext, hstring, colon_eq_ok_iff.mp hcolon, hvalue, hfields⟩
  · rintro (⟨t, hnext, rfl, rfl⟩ |
      ⟨t, name, u, w, v, x, hnext, hstring, hcolon, hvalue, hfields⟩)
    · exact ⟨false, t, hnext, rfl⟩
    · exact ⟨true, t, hnext, by simp [hstring, colon_eq_ok_iff.mpr hcolon, hvalue, hfields]⟩

/-! ### What follows -/

theorem NextItem.onward (h : NextItem first s more t) (other : List Char) :
    NextItem first (s ++ other) more (t ++ other) := by
  cases h with
  | close => exact .close
  | first hc => exact .first hc
  | comma hu hc => exact .comma (skipBlanks_of_eq_cons hu other) hc

theorem NextField.onward (h : NextField first s more t) (other : List Char) :
    NextField first (s ++ other) more (t ++ other) := by
  cases h with
  | close => exact .close
  | first => exact .first
  | comma hu => exact .comma (skipBlanks_of_eq_cons hu other)

theorem NextItem.eq_cons (h : NextItem first s false t) : ∃ u, t = ']' :: u := by
  cases h
  exact ⟨_, rfl⟩

theorem NextField.eq_cons (h : NextField first s false t) : ∃ u, t = '\x7d' :: u := by
  cases h
  exact ⟨_, rfl⟩

theorem NextItem.ne_nil (h : NextItem first s more t) : s ≠ [] := by
  cases h <;> simp

theorem NextField.ne_nil (h : NextField first s more t) : s ≠ [] := by
  cases h <;> simp

theorem ValueRead.ne_nil (h : ValueRead wanted fuel depth s v rest) : s ≠ [] := by
  cases h <;> simp

theorem ne_nil_of_skipBlanks (h : skipBlanks s ≠ []) : s ≠ [] := by
  rintro rfl
  exact h rfl

theorem items_ne_nil (h : items wanted first fuel depth s = .ok (vs, rest)) : s ≠ [] := by
  cases fuel with
  | zero =>
      rw [items] at h
      cases h
  | succ fuel =>
      rcases items_eq_ok_iff.mp h with ⟨_, hnext, -⟩ | ⟨_, _, _, _, hnext, -⟩
      · exact ne_nil_of_skipBlanks hnext.ne_nil
      · exact ne_nil_of_skipBlanks hnext.ne_nil

theorem fields_ne_nil (h : fields wanted first fuel depth known s = .ok (fs, rest)) : s ≠ [] := by
  cases fuel with
  | zero =>
      rw [fields] at h
      cases h
  | succ fuel =>
      rcases fields_eq_ok_iff.mp h with ⟨_, hnext, -⟩ | ⟨_, _, _, _, _, _, hnext, -⟩
      · exact ne_nil_of_skipBlanks hnext.ne_nil
      · exact ne_nil_of_skipBlanks hnext.ne_nil

/-- Readers with so many steps read in the same way when they have more of them and the text
goes on. A number must have an end for that, since digits that follow would belong to it. -/
structure Onward (wanted : Bool) (fuel : Nat) : Prop where
  value : ∀ {longer depth s v rest}, value wanted fuel depth s = .ok (v, rest) → fuel ≤ longer →
    (rest ≠ [] ∨ ∀ n, v ≠ .number n) → ∀ other,
    Reader.value wanted longer depth (s ++ other) = .ok (v, rest ++ other)
  items : ∀ {first longer depth s vs rest}, items wanted first fuel depth s = .ok (vs, rest) →
    fuel ≤ longer → ∀ other,
    Reader.items wanted first longer depth (s ++ other) = .ok (vs, rest ++ other)
  fields : ∀ {first longer depth known s fs rest},
    fields wanted first fuel depth known s = .ok (fs, rest) → fuel ≤ longer → ∀ other,
    Reader.fields wanted first longer depth known (s ++ other) = .ok (fs, rest ++ other)

theorem Onward.zero (wanted : Bool) : Onward wanted 0 where
  value h := by
    rw [Reader.value] at h
    cases h
  items h := by
    rw [Reader.items] at h
    cases h
  fields h := by
    rw [Reader.fields] at h
    cases h

/-- The next step of the induction. -/
theorem Onward.succ (ih : Onward wanted fuel) : Onward wanted (fuel + 1) where
  value := by
    intro longer depth s v rest h hle hend other
    obtain ⟨longer, rfl⟩ : ∃ fewer, longer = fewer + 1 := ⟨longer - 1, by omega⟩
    have hread := value_eq_ok_iff.mp h
    refine value_eq_ok_iff.mpr ?_
    rw [skipBlanks_append hread.ne_nil]
    generalize skipBlanks s = ahead at hread
    cases hread with
    | null hword => exact .null (word_onward hword other)
    | true hword => exact .true (word_onward hword other)
    | false hword => exact .false (word_onward hword other)
    | negative hnumber =>
        have hrest := hend.resolve_right fun hno => hno _ rfl
        exact .negative ((number_ok hnumber).onward hrest other)
    | number hdigit hnumber =>
        have hrest := hend.resolve_right fun hno => hno _ rfl
        exact .number hdigit ((number_ok hnumber).onward hrest other)
    | string hstring => exact .string (string_onward hstring other)
    | array hdepth hitems => exact .array hdepth (ih.items hitems (by omega) other)
    | object hdepth hfields => exact .object hdepth (ih.fields hfields (by omega) other)
  items := by
    intro first longer depth s vs rest h hle other
    obtain ⟨longer, rfl⟩ : ∃ fewer, longer = fewer + 1 := ⟨longer - 1, by omega⟩
    rw [items_eq_ok_iff] at h ⊢
    rcases h with ⟨t, hnext, hvs, rfl⟩ | ⟨t, v, u, others, hnext, hvalue, hitems, hvs⟩
    · have hmore := hnext.onward other
      rw [← skipBlanks_append hnext.ne_nil] at hmore
      obtain ⟨u, rfl⟩ := hnext.eq_cons
      exact .inl ⟨_, hmore, hvs, rfl⟩
    · have hmore := hnext.onward other
      rw [← skipBlanks_append hnext.ne_nil] at hmore
      exact .inr ⟨t ++ other, v, u ++ other, others, hmore,
        ih.value hvalue (by omega) (.inl (items_ne_nil hitems)) other,
        ih.items hitems (by omega) other, hvs⟩
  fields := by
    intro first longer depth known s fs rest h hle other
    obtain ⟨longer, rfl⟩ : ∃ fewer, longer = fewer + 1 := ⟨longer - 1, by omega⟩
    rw [fields_eq_ok_iff] at h ⊢
    rcases h with ⟨t, hnext, hfs, rfl⟩ |
      ⟨t, name, u, w, v, x, hnext, hstring, hcolon, hvalue, hfields⟩
    · have hmore := hnext.onward other
      rw [← skipBlanks_append hnext.ne_nil] at hmore
      obtain ⟨u, rfl⟩ := hnext.eq_cons
      exact .inl ⟨_, hmore, hfs, rfl⟩
    · have hmore := hnext.onward other
      rw [← skipBlanks_append hnext.ne_nil] at hmore
      exact .inr ⟨t ++ other, name, u ++ other, w ++ other, v, x ++ other, hmore,
        string_onward hstring other, skipBlanks_of_eq_cons hcolon other,
        ih.value hvalue (by omega) (.inl (fields_ne_nil hfields)) other,
        ih.fields hfields (by omega) other⟩

theorem onward (wanted : Bool) (fuel : Nat) : Onward wanted fuel := by
  induction fuel with
  | zero => exact .zero wanted
  | succ fuel ih => exact ih.succ

/-- **Whatever follows a value**, it is read in the same way. -/
theorem value_onward {longer : Nat} (h : value wanted fuel depth s = .ok (v, rest))
    (hle : fuel ≤ longer) (hend : rest ≠ [] ∨ ∀ n, v ≠ .number n) (other : List Char) :
    value wanted longer depth (s ++ other) = .ok (v, rest ++ other) :=
  (onward wanted fuel).value h hle hend other

end Reader

/-! ### Whole texts -/

open Reader

variable {text other : String} {v w : Value}

theorem Reader.finish_eq_ok_iff {s : List Char} : finish s = .ok () ↔ skipBlanks s = [] := by
  unfold finish
  split
  · next hs => simp [hs]
  · next hne =>
      refine iff_of_false (fun h => ?_) hne
      cases h

theorem Value.parse_eq_ok_iff :
    Value.parse text = .ok v ↔ ∃ rest,
      value true (fuelFor text.toList) depthLimit text.toList = .ok (v, rest) ∧
        skipBlanks rest = [] := by
  unfold Value.parse whole
  constructor
  · intro h
    dsimp only at h
    split at h
    · next x hread =>
        obtain rfl : x = v := Except.ok.inj h
        obtain ⟨⟨x, rest⟩, hvalue, hread⟩ := Attempt.bind_eq_ok_iff.mp hread
        obtain ⟨_, hfinish, heq⟩ := Attempt.bind_eq_ok_iff.mp hread
        obtain rfl := Except.ok.inj heq
        exact ⟨rest, hvalue, finish_eq_ok_iff.mp hfinish⟩
    · cases h
  · rintro ⟨rest, hvalue, hrest⟩
    simp [hvalue, finish_eq_ok_iff.mpr hrest]

/-- **A text that is a value, and no number, goes on with blanks only** if it is one then. -/
theorem Value.parse_of_parse_append (h : Value.parse text = .ok v) (hno : ∀ n, v ≠ .number n)
    (hmore : Value.parse (text ++ other) = .ok w) :
    w = v ∧ skipBlanks other.toList = [] := by
  obtain ⟨rest, hvalue, hrest⟩ := Value.parse_eq_ok_iff.mp h
  obtain ⟨rest', hvalue', hrest'⟩ := Value.parse_eq_ok_iff.mp hmore
  rw [String.toList_append] at hvalue'
  have hle : fuelFor text.toList ≤ fuelFor (text.toList ++ other.toList) := by
    simp only [fuelFor, List.length_append]
    omega
  rw [value_onward hvalue hle (.inr hno) other.toList] at hvalue'
  obtain ⟨rfl, rfl⟩ := Prod.mk.inj (Except.ok.inj hvalue')
  unfold skipBlanks at hrest hrest' ⊢
  rw [List.dropWhile_append, if_pos (by simp [hrest])] at hrest'
  exact ⟨rfl, hrest'⟩

end Workbench.Json
