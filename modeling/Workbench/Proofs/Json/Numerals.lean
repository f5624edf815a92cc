/-
# Reading numbers

A reader of a number takes characters of numbers off the front of a text. It looks at one
character more, to see that the number ends there, and never further: when something follows
the number, the rest of the text may be any.

* `Reader.Numeral` — a number was read, and in that way.
* `Reader.number_ok` — **how numbers are read**.
-/

import Workbench.Json.Reader
import Workbench.Proofs.Attempt

namespace Workbench.Json.Reader

/-- The characters that numbers are written in. -/
def isNumeral (c : Char) : Bool :=
  (digit? c).isSome || c == '.' || c == 'e' || c == 'E' || c == '+' || c == '-'

/-- What is read takes characters of numbers off the front of a text, and does not depend on
what follows the first character that is left. -/
structure Numeral {α : Type} (read : List Char → Except Stop (α × List Char)) (s : List Char)
    (x : α) (rest : List Char) : Prop where
  taken : ∃ digits, s = digits ++ rest ∧ ∀ c ∈ digits, isNumeral c = true
  onward : rest ≠ [] → ∀ more, read (s ++ more) = .ok (x, rest ++ more)

variable {wanted negative minus : Bool} {significand before count e : Nat} {start shift : Int}
  {s rest : List Char} {n : Number} {c : Char}

theorem isNumeral_digit {d : Nat} (h : digit? c = some d) : isNumeral c = true := by
  simp [isNumeral, h]

theorem isNumeral_of_isSome (h : (digit? c).isSome = true) : isNumeral c = true := by
  simp [isNumeral, h]

namespace Numeral

variable {α : Type} {read reader : List Char → Except Stop (α × List Char)} {x : α}

/-- A reader that takes nothing. -/
theorem none (h : s ≠ [] → ∀ more, read (s ++ more) = .ok (x, s ++ more)) :
    Numeral read s x s where
  taken := ⟨[], rfl, by simp⟩
  onward := h

/-- A reader that takes some characters and goes on as another one. -/
theorem append (front : List Char) (h : Numeral reader s x rest)
    (hfront : ∀ c ∈ front, isNumeral c = true)
    (hsame : ∀ more, reader (s ++ more) = .ok (x, rest ++ more) →
      read (front ++ (s ++ more)) = .ok (x, rest ++ more)) : Numeral read (front ++ s) x rest where
  taken := by
    obtain ⟨digits, rfl, hdigits⟩ := h.taken
    refine ⟨front ++ digits, by simp, fun c mem => ?_⟩
    rcases List.mem_append.mp mem with mem | mem
    · exact hfront c mem
    · exact hdigits c mem
  onward hrest more := by
    rw [List.append_assoc]
    exact hsame more (h.onward hrest more)

theorem cons (h : Numeral reader s x rest) (hc : isNumeral c = true)
    (hsame : ∀ more, reader (s ++ more) = .ok (x, rest ++ more) →
      read (c :: (s ++ more)) = .ok (x, rest ++ more)) : Numeral read (c :: s) x rest :=
  append [c] h (by simpa using hc) hsame

/-- A reader that goes on as another one where it is. -/
theorem same (h : Numeral reader s x rest)
    (hsame : ∀ more, reader (s ++ more) = .ok (x, rest ++ more) →
      read (s ++ more) = .ok (x, rest ++ more)) : Numeral read s x rest :=
  append [] h (by simp) hsame

theorem of_nil (h : Numeral reader [] x rest) : Numeral read [] x rest where
  taken := h.taken
  onward hrest := by
    obtain ⟨digits, hnil, -⟩ := h.taken
    exact absurd (List.append_eq_nil_iff.mp hnil.symm).2 hrest

/-- A reader that takes a character and all digits after it, and goes on as another one. -/
theorem drop_digits (h : Numeral reader (s.dropWhile (digit? · |>.isSome)) x rest)
    (hc : isNumeral c = true)
    (hsame : ∀ more, reader ((s ++ more).dropWhile (digit? · |>.isSome)) = .ok (x, rest ++ more) →
      read (c :: (s ++ more)) = .ok (x, rest ++ more)) : Numeral read (c :: s) x rest where
  taken := by
    obtain ⟨digits, hdrop, hdigits⟩ := h.taken
    refine ⟨c :: (s.takeWhile (digit? · |>.isSome) ++ digits), ?_, ?_⟩
    · rw [List.cons_append, List.append_assoc, ← hdrop, List.takeWhile_append_dropWhile]
    · refine List.forall_mem_cons.mpr ⟨hc, fun d mem => ?_⟩
      rcases List.mem_append.mp mem with mem | mem
      · exact isNumeral_of_isSome (List.all_eq_true.mp List.all_takeWhile d mem)
      · exact hdigits d mem
  onward hrest more := by
    obtain ⟨digits, hdrop, -⟩ := h.taken
    have hne : s.dropWhile (digit? · |>.isSome) ≠ [] := by
      rw [hdrop]
      simp [hrest]
    refine hsame more ?_
    rw [List.dropWhile_append, if_neg (by simpa using hne)]
    exact h.onward hrest more

end Numeral

/-! ### Exponents -/

theorem double_ok (h : double negative significand shift s = .ok (n, rest)) :
    rest = s ∧ ∀ other, double negative significand shift other = .ok (n, other) := by
  unfold double at h ⊢
  split at h
  · next x hx =>
      obtain ⟨rfl, rfl⟩ : _ = n ∧ s = rest := by simpa using h
      exact ⟨rfl, fun other => rfl⟩
  · cases h

theorem finish_ok
    (h : exponentDigits.finish wanted negative significand start minus e s = .ok (n, rest)) :
    rest = s ∧ ∀ other,
      exponentDigits.finish wanted negative significand start minus e other = .ok (n, other) := by
  unfold exponentDigits.finish at h ⊢
  cases wanted with
  | true => exact double_ok h
  | false =>
      obtain ⟨rfl, rfl⟩ : _ = n ∧ s = rest := by simpa using h
      exact ⟨rfl, fun other => rfl⟩

theorem exponentDigits_ok
    (h : exponentDigits wanted negative significand start minus e s = .ok (n, rest)) :
    Numeral (exponentDigits wanted negative significand start minus e) s n rest := by
  induction s generalizing e with
  | nil =>
      obtain ⟨rfl, -⟩ := finish_ok h
      exact .none (by simp)
  | cons c s ih =>
      cases hd : digit? c with
      | none =>
          simp only [exponentDigits, hd] at h
          obtain ⟨rfl, hfinish⟩ := finish_ok h
          exact .none fun _ more => by simpa [exponentDigits, hd] using hfinish (c :: (s ++ more))
      | some d =>
          simp only [exponentDigits, hd] at h
          split at h
          · next hle =>
              exact (ih h).cons (isNumeral_digit hd) fun more hmore => by
                simpa [exponentDigits, hd, hle] using hmore
          · next hle =>
              split at h
              · cases h
              · next hbig =>
                  obtain ⟨rfl, rfl⟩ : _ = n ∧ s.dropWhile (digit? · |>.isSome) = rest := by
                    simpa using h
                  have hend : Numeral
                      (fun s => .ok (Number.double (if negative then -0.0 else 0.0), s))
                      (s.dropWhile (digit? · |>.isSome))
                      (Number.double (if negative then -0.0 else 0.0))
                      (s.dropWhile (digit? · |>.isSome)) := .none fun _ more => rfl
                  exact hend.drop_digits (isNumeral_digit hd) fun more hmore => by
                    rw [exponentDigits]
                    simp only [hd, if_neg hle, if_neg hbig]
                    exact hmore

/-- The written forms of the sign of an exponent. -/
inductive Sign : List Char → Bool → Prop where
  | none : Sign [] false
  | plus : Sign ['+'] false
  | minus : Sign ['-'] true

theorem Sign.isNumeral {sign : List Char} (h : Sign sign minus) :
    ∀ c ∈ sign, isNumeral c = true := by
  cases h <;> exact List.all_eq_true.mp rfl

theorem exists_exponentDigits (minus : Bool) (t : List Char)
    (h : (match t with
      | [] => after .endInValue []
      | c :: digits =>
          match digit? c with
          | some d => exponentDigits wanted negative significand start minus d digits
          | none => after .invalidNumber digits) = .ok (n, rest)) :
    ∃ c d digits, digit? c = some d ∧ t = c :: digits ∧
      exponentDigits wanted negative significand start minus d digits = .ok (n, rest) := by
  rcases t with _ | ⟨c, digits⟩
  · cases h
  · cases hd : digit? c with
    | none => simp [hd, after] at h
    | some d => exact ⟨c, d, digits, hd, rfl, by simpa [hd] using h⟩

/-- The digits of an exponent are read after its sign. -/
theorem exponent_eq_ok_iff :
    exponent wanted negative significand start s = .ok (n, rest) ↔
      ∃ sign minus c d digits, Sign sign minus ∧ digit? c = some d ∧ s = sign ++ c :: digits ∧
        exponentDigits wanted negative significand start minus d digits = .ok (n, rest) := by
  constructor
  · intro h
    unfold exponent at h
    split at h
    next minus t hsplit =>
    split at hsplit
    · obtain ⟨rfl, rfl⟩ := Prod.mk.inj hsplit
      obtain ⟨c, d, digits, hd, rfl, hread⟩ := exists_exponentDigits false _ h
      exact ⟨['+'], false, c, d, digits, .plus, hd, rfl, hread⟩
    · obtain ⟨rfl, rfl⟩ := Prod.mk.inj hsplit
      obtain ⟨c, d, digits, hd, rfl, hread⟩ := exists_exponentDigits true _ h
      exact ⟨['-'], true, c, d, digits, .minus, hd, rfl, hread⟩
    · obtain ⟨rfl, rfl⟩ := Prod.mk.inj hsplit
      obtain ⟨c, d, digits, hd, rfl, hread⟩ := exists_exponentDigits false _ h
      exact ⟨[], false, c, d, digits, .none, hd, rfl, hread⟩
  · rintro ⟨sign, minus, c, d, digits, hsign, hd, rfl, h⟩
    cases hsign with
    | plus => simpa [exponent, hd] using h
    | minus => simpa [exponent, hd] using h
    | none =>
        have hplus : c ≠ '+' := by
          rintro rfl
          cases hd
        have hminus : c ≠ '-' := by
          rintro rfl
          cases hd
        simpa [exponent, hd, hplus, hminus] using h

theorem exponent_ok (h : exponent wanted negative significand start s = .ok (n, rest)) :
    Numeral (exponent wanted negative significand start) s n rest := by
  obtain ⟨sign, minus, c, d, digits, hsign, hd, rfl, hread⟩ := exponent_eq_ok_iff.mp h
  have hnumeral : Numeral (exponent wanted negative significand start) ((sign ++ [c]) ++ digits)
      n rest := by
    refine .append (sign ++ [c]) (exponentDigits_ok hread) ?_ ?_
    · intro other mem
      rcases List.mem_append.mp mem with mem | mem
      · exact hsign.isNumeral other mem
      · exact List.mem_singleton.mp mem ▸ isNumeral_digit hd
    · intro more hmore
      exact exponent_eq_ok_iff.mpr ⟨sign, minus, c, d, digits ++ more, hsign, hd, by simp, hmore⟩
  simpa using hnumeral

/-! ### Parts of numbers -/

theorem mantissaEnd_of_ne (hsmall : c ≠ 'e') (hlarge : c ≠ 'E') (s : List Char) :
    mantissaEnd wanted negative significand shift (c :: s) =
      if wanted then double negative significand shift (c :: s)
      else .ok (.double 0.0, c :: s) := by
  unfold mantissaEnd
  split
  · next heq => exact absurd (List.cons.inj heq).1 hsmall
  · next heq => exact absurd (List.cons.inj heq).1 hlarge
  · rfl

theorem mantissaEnd_ok (h : mantissaEnd wanted negative significand shift s = .ok (n, rest)) :
    Numeral (mantissaEnd wanted negative significand shift) s n rest := by
  -- Where no exponent follows, the number is what it is whatever follows.
  have hplain (hs : (if wanted then double negative significand shift s
      else .ok (.double 0.0, s)) = .ok (n, rest)) :
      rest = s ∧ ∀ other, (if wanted then double negative significand shift other
        else .ok (.double 0.0, other)) = .ok (n, other) := by
    cases wanted with
    | true => exact double_ok hs
    | false =>
        obtain ⟨rfl, rfl⟩ : _ = n ∧ s = rest := by simpa using hs
        exact ⟨rfl, fun other => rfl⟩
  rcases s with _ | ⟨c, s⟩
  · obtain ⟨rfl, -⟩ := hplain h
    exact .none (by simp)
  by_cases hsmall : c = 'e'
  · subst hsmall
    exact (exponent_ok h).cons (by decide) fun more hmore => hmore
  by_cases hlarge : c = 'E'
  · subst hlarge
    exact (exponent_ok h).cons (by decide) fun more hmore => hmore
  rw [mantissaEnd_of_ne hsmall hlarge] at h
  obtain ⟨rfl, hsame⟩ := hplain h
  refine .none fun _ more => ?_
  rw [List.cons_append, mantissaEnd_of_ne hsmall hlarge]
  exact hsame _

theorem decimals_ok (h : decimals wanted negative significand before count s = .ok (n, rest)) :
    Numeral (decimals wanted negative significand before count) s n rest := by
  induction s generalizing significand count with
  | nil =>
      simp only [decimals] at h
      split at h
      · cases h
      · exact (mantissaEnd_ok h).of_nil
  | cons c s ih =>
      cases hd : digit? c with
      | none =>
          simp only [decimals, hd] at h
          split at h
          · cases h
          · next hcount =>
              exact (mantissaEnd_ok h).same fun more hmore => by
                simpa [decimals, hd, hcount] using hmore
      | some d =>
          simp only [decimals, hd] at h
          split at h
          · next hle =>
              exact (ih h).cons (isNumeral_digit hd) fun more hmore => by
                simpa [decimals, hd, hle] using hmore
          · next hle =>
              exact (mantissaEnd_ok h).drop_digits (isNumeral_digit hd) fun more hmore => by
                simpa [decimals, hd, hle] using hmore

theorem longInteger_of_ne (hpoint : c ≠ '.') (s : List Char) :
    longInteger wanted negative significand e (c :: s) =
      match digit? c with
      | some _ => longInteger wanted negative significand (e + 1) s
      | none => mantissaEnd wanted negative significand e (c :: s) := by
  cases hd : digit? c <;> simp [longInteger, hd]

theorem longInteger_ok (h : longInteger wanted negative significand e s = .ok (n, rest)) :
    Numeral (longInteger wanted negative significand e) s n rest := by
  induction s generalizing e with
  | nil => exact (mantissaEnd_ok h).of_nil
  | cons c s ih =>
      by_cases hpoint : c = '.'
      · subst hpoint
        exact (decimals_ok h).cons (by decide) fun more hmore => hmore
      · rw [longInteger_of_ne hpoint] at h
        cases hd : digit? c with
        | none =>
            simp only [hd] at h
            exact (mantissaEnd_ok h).same fun more hmore => by
              rw [List.cons_append, longInteger_of_ne hpoint, hd]
              exact hmore
        | some d =>
            simp only [hd] at h
            exact (ih h).cons (isNumeral_digit hd) fun more hmore => by
              rw [longInteger_of_ne hpoint, hd]
              exact hmore

/-- The whole number read, when no point and no exponent follows. -/
def wholeNumber (negative : Bool) (significand : Nat) : Number :=
  if !negative then .whole significand
  else if significand = 0 || Nat.pow 2 63 < significand then
    .double (-(significand.toUInt64.toFloat))
  else .whole (-(significand : Int))

theorem integerEnd_of_ne (hpoint : c ≠ '.') (hsmall : c ≠ 'e') (hlarge : c ≠ 'E')
    (s : List Char) :
    integerEnd wanted negative significand (c :: s) =
      .ok (wholeNumber negative significand, c :: s) := by
  unfold integerEnd wholeNumber
  split
  · next heq => exact absurd (List.cons.inj heq).1 hpoint
  · next heq => exact absurd (List.cons.inj heq).1 hsmall
  · next heq => exact absurd (List.cons.inj heq).1 hlarge
  · split
    · rfl
    · split <;> rfl

theorem integerEnd_nil :
    integerEnd wanted negative significand [] = .ok (wholeNumber negative significand, []) := by
  unfold integerEnd wholeNumber
  dsimp only
  split
  · rfl
  · split <;> rfl

theorem integerEnd_ok (h : integerEnd wanted negative significand s = .ok (n, rest)) :
    Numeral (integerEnd wanted negative significand) s n rest := by
  rcases s with _ | ⟨c, s⟩
  · obtain ⟨rfl, rfl⟩ : wholeNumber negative significand = n ∧ [] = rest := by
      simpa [integerEnd_nil] using h
    exact .none (by simp)
  by_cases hpoint : c = '.'
  · subst hpoint
    exact (decimals_ok h).cons (by decide) fun more hmore => hmore
  by_cases hsmall : c = 'e'
  · subst hsmall
    exact (exponent_ok h).cons (by decide) fun more hmore => hmore
  by_cases hlarge : c = 'E'
  · subst hlarge
    exact (exponent_ok h).cons (by decide) fun more hmore => hmore
  rw [integerEnd_of_ne hpoint hsmall hlarge] at h
  obtain ⟨rfl, rfl⟩ : wholeNumber negative significand = n ∧ c :: s = rest := by simpa using h
  exact .none fun _ more => integerEnd_of_ne hpoint hsmall hlarge (s ++ more)

theorem integerDigits_ok (h : integerDigits wanted negative significand s = .ok (n, rest)) :
    Numeral (integerDigits wanted negative significand) s n rest := by
  induction s generalizing significand with
  | nil => exact (integerEnd_ok h).of_nil
  | cons c s ih =>
      cases hd : digit? c with
      | none =>
          simp only [integerDigits, hd] at h
          exact (integerEnd_ok h).same fun more hmore => by
            simpa [integerDigits, hd] using hmore
      | some d =>
          simp only [integerDigits, hd] at h
          split at h
          · next hle =>
              exact (ih h).cons (isNumeral_digit hd) fun more hmore => by
                simpa [integerDigits, hd, hle] using hmore
          · next hle =>
              exact (longInteger_ok h).same fun more hmore => by
                simpa [integerDigits, hd, hle] using hmore

theorem number_of_ne (hzero : c ≠ '0') (s : List Char) :
    number wanted negative (c :: s) =
      match digit? c with
      | some d => integerDigits wanted negative d s
      | none => after .invalidNumber s := by
  cases hd : digit? c <;> simp [number, hd]

theorem number_zero_of_ne {d : Char} (hd : (digit? d).isSome = false) (s : List Char) :
    number wanted negative ('0' :: d :: s) = integerEnd wanted negative 0 (d :: s) := by
  simp [number, hd]

/-- **How numbers are read**: in characters of numbers, and whatever follows the first one
that is left. -/
theorem number_ok (h : number wanted negative s = .ok (n, rest)) :
    Numeral (number wanted negative) s n rest := by
  rcases s with _ | ⟨c, s⟩
  · cases h
  by_cases hzero : c = '0'
  · subst hzero
    rcases s with _ | ⟨d, s⟩
    · have hend : integerEnd wanted negative 0 [] = .ok (n, rest) := h
      rw [integerEnd_nil] at hend
      obtain ⟨rfl, rfl⟩ : wholeNumber negative 0 = n ∧ [] = rest := by simpa using hend
      exact ⟨⟨['0'], rfl, List.all_eq_true.mp rfl⟩, by simp⟩
    · cases hd : (digit? d).isSome with
      | true => simp [number, hd, Reader.before] at h
      | false =>
          rw [number_zero_of_ne hd] at h
          exact (integerEnd_ok h).cons (by decide) fun more hmore => by
            rw [List.cons_append, number_zero_of_ne hd]
            exact hmore
  · rw [number_of_ne hzero] at h
    cases hd : digit? c with
    | none => simp [hd, after] at h
    | some d =>
        simp only [hd] at h
        exact (integerDigits_ok h).cons (isNumeral_digit hd) fun more hmore => by
          rw [number_of_ne hzero, hd]
          exact hmore

end Workbench.Json.Reader
