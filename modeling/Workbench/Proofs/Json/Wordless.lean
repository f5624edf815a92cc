/-
# Texts in which no string can be read

A piece that was cut out of a written value may begin inside a string and end inside another
one. Read as a value of its own it has its strings inside out: what stands between them would
be the strings, and after such a string no list and no object goes on. So whatever value is
read from the piece has no string in it.

* `Reader.Silent` — no string that is part of a list or an object can be read from a text.
* `Wordless` — no string and no name of a field occurs in a value.
* `Reader.silently` — **what is read from a silent text is wordless**.
-/

import Workbench.Proofs.Json.Reading

namespace Workbench.Json

/-- No string occurs in a value, and no field. -/
inductive Wordless : Value → Prop where
  | null : Wordless .null
  | bool (b : Bool) : Wordless (.bool b)
  | number (n : Number) : Wordless (.number n)
  | array {vs : List Value} : (∀ v ∈ vs, Wordless v) → Wordless (.array vs)
  | object : Wordless (.object [])

namespace Reader

variable {first more : Bool} {fuel depth : Nat} {s t p rest front : List Char} {c : Char}
  {v : Value} {vs : List Value} {known fs : List (String × Value)} {n : Number}

/-! ### Silent texts -/

/-- Nothing that may stand after an item or a name is next, and no blank. -/
def Dead (s : List Char) : Prop :=
  ∀ c t, s = c :: t → isBlank c = false ∧ c ≠ ',' ∧ c ≠ ']' ∧ c ≠ '\x7d' ∧ c ≠ ':'

/-- However the text goes on after a quote and wherever it is cut, it is no string, or one
after which nothing goes on. -/
def Stuck (s : List Char) : Prop :=
  ∀ p, p <+: s → ∀ fuel read cs rest, stringFrom true fuel read p = .ok (cs, rest) → Dead rest

/-- Before anything else that could be part of a string there is a backslash, or a quote
after which the text is stuck. -/
@[irreducible]
def Silent : List Char → Prop
  | [] => True
  | c :: s => if c = '\\' then True else if c = '"' then Stuck s else Silent s

/-- A character that has nothing to do with strings. -/
def isPlain (c : Char) : Bool :=
  c != '\\' && c != '"'

theorem isPlain_iff : isPlain c = true ↔ c ≠ '\\' ∧ c ≠ '"' := by
  simp [isPlain]

/-- The characters of a class without the backslash and the quote are plain. -/
theorem isPlain_of {p : Char → Bool} (hslash : p '\\' = false) (hquote : p '"' = false)
    (hc : p c = true) : isPlain c = true := by
  rw [isPlain_iff]
  constructor
  · rintro rfl
    rw [hslash] at hc
    cases hc
  · rintro rfl
    rw [hquote] at hc
    cases hc

theorem silent_nil : Silent [] := by
  rw [Silent]
  trivial

theorem silent_cons_iff (hc : isPlain c = true) : Silent (c :: s) ↔ Silent s := by
  obtain ⟨hslash, hquote⟩ := isPlain_iff.mp hc
  rw [Silent, if_neg hslash, if_neg hquote]

theorem silent_append_iff (hfront : ∀ c ∈ front, isPlain c = true) :
    Silent (front ++ s) ↔ Silent s := by
  induction front with
  | nil => rfl
  | cons c front ih =>
      obtain ⟨hc, hmore⟩ := List.forall_mem_cons.mp hfront
      rw [List.cons_append, silent_cons_iff hc, ih hmore]

theorem silent_quote_iff : Silent ('"' :: s) ↔ Stuck s := by
  rw [Silent, if_neg (by decide), if_pos rfl]

theorem silent_slash (s : List Char) : Silent ('\\' :: s) := by
  rw [Silent, if_pos rfl]
  trivial

theorem Stuck.of_isPrefix (h : Stuck s) (hp : p <+: s) : Stuck p :=
  fun other hother => h other (hother.trans hp)

theorem Silent.of_isPrefix (h : Silent s) (hp : p <+: s) : Silent p := by
  induction p generalizing s with
  | nil => exact silent_nil
  | cons c p ih =>
      obtain ⟨t, rfl⟩ := hp
      rw [List.cons_append, Silent] at h
      rw [Silent]
      split
      · trivial
      · next hslash =>
          rw [if_neg hslash] at h
          split
          · next hquote =>
              rw [if_pos hquote] at h
              exact h.of_isPrefix (List.prefix_append ..)
          · next hquote =>
              rw [if_neg hquote] at h
              exact ih h (List.prefix_append ..)

/-! ### Texts that are stuck -/

theorem stuck_nil : Stuck [] := by
  intro p hp fuel read cs rest h
  obtain rfl := List.prefix_nil.mp hp
  cases fuel <;> cases h

theorem stuck_cons (h : Stuck s) (hc : isPlain c = true) : Stuck (c :: s) := by
  obtain ⟨hslash, hquote⟩ := isPlain_iff.mp hc
  intro p hp fuel read cs rest hread
  rcases List.prefix_cons_iff.mp hp with rfl | ⟨q, rfl, hq⟩
  · cases fuel <;> cases hread
  · cases fuel with
    | zero => cases hread
    | succ fuel =>
        rw [stringFrom, if_neg hquote, if_neg hslash] at hread
        split at hread
        · cases hread
        · exact h q hq fuel _ cs rest hread

theorem stuck_append (h : Stuck s) (hfront : ∀ c ∈ front, isPlain c = true) :
    Stuck (front ++ s) := by
  induction front with
  | nil => exact h
  | cons c front ih =>
      obtain ⟨hc, hmore⟩ := List.forall_mem_cons.mp hfront
      exact stuck_cons (ih hmore) hc

/-- A string ends, and nothing goes on after it. -/
theorem stuck_quote (h : Dead s) : Stuck ('"' :: s) := by
  intro p hp fuel read cs rest hread
  rcases List.prefix_cons_iff.mp hp with rfl | ⟨q, rfl, hq⟩
  · cases fuel <;> cases hread
  · cases fuel with
    | zero => cases hread
    | succ fuel =>
        rw [stringFrom, if_pos rfl] at hread
        obtain ⟨-, rfl⟩ := Prod.mk.inj (Except.ok.inj hread)
        obtain ⟨t, rfl⟩ := hq
        intro c u hcons
        subst hcons
        exact h c (u ++ t) rfl

/-! ### Reading a silent text -/

theorem isPlain_of_isBlank (hc : isBlank c = true) : isPlain c = true :=
  isPlain_of rfl rfl hc

theorem silent_dropWhile {p : Char → Bool} (hp : ∀ c, p c = true → isPlain c = true)
    (h : Silent s) : Silent (s.dropWhile p) := by
  have hplain : ∀ c ∈ s.takeWhile p, isPlain c = true := fun c mem =>
    hp c (List.all_eq_true.mp List.all_takeWhile c mem)
  rw [← List.takeWhile_append_dropWhile (p := p) (l := s), silent_append_iff hplain] at h
  exact h

theorem silent_skipBlanks (h : Silent s) : Silent (skipBlanks s) :=
  silent_dropWhile (fun _ => isPlain_of_isBlank) h

theorem Dead.skipBlanks_eq (h : Dead s) : skipBlanks s = s := by
  cases s with
  | nil => rfl
  | cons c s => exact List.dropWhile_cons_of_neg (by simp [(h c s rfl).1])

theorem word_silent {letters : List Char} (h : word letters s = .ok rest)
    (hletters : ∀ c ∈ letters, isPlain c = true) (hs : Silent s) : Silent rest := by
  induction letters generalizing s with
  | nil =>
      obtain rfl : s = rest := by simpa [word] using h
      exact hs
  | cons letter letters ih =>
      obtain ⟨hletter, hmore⟩ := List.forall_mem_cons.mp hletters
      cases s with
      | nil => cases h
      | cons c s =>
          by_cases hc : c = letter
          · subst hc
            rw [word, if_pos rfl] at h
            exact ih h hmore ((silent_cons_iff hletter).mp hs)
          · simp [word, hc, after] at h

theorem isPlain_of_isNumeral (hc : isNumeral c = true) : isPlain c = true :=
  isPlain_of rfl rfl hc

theorem number_silent {negative : Bool} (h : number true negative s = .ok (n, rest))
    (hs : Silent s) : Silent rest := by
  obtain ⟨digits, rfl, hdigits⟩ := (number_ok h).taken
  exact (silent_append_iff fun c mem => isPlain_of_isNumeral (hdigits c mem)).mp hs

theorem string_dead {text : String} (h : string true s = .ok (text, rest)) (hs : Stuck s) :
    Dead rest :=
  hs s (List.prefix_refl s) _ _ _ _ (string_eq_ok_iff.mp h)

/-- What can be read with so many steps from a silent text. -/
structure Silently (fuel : Nat) : Prop where
  value : ∀ {depth s v rest}, value true fuel depth s = .ok (v, rest) → Silent s →
    (Wordless v ∧ Silent rest) ∨ ((∃ text, v = .string text) ∧ Dead rest)
  items : ∀ {first depth s vs rest}, items true first fuel depth s = .ok (vs, rest) → Silent s →
    (∀ v ∈ vs, Wordless v) ∧ Silent rest
  fields : ∀ {first depth known s fs rest}, fields true first fuel depth known s = .ok (fs, rest) →
    Silent s → fs = known ∧ Silent rest

theorem items_not_dead (h : items true false fuel depth s = .ok (vs, rest)) : ¬ Dead s := by
  intro hdead
  cases fuel with
  | zero =>
      rw [items] at h
      cases h
  | succ fuel =>
      rw [items_eq_ok_iff, hdead.skipBlanks_eq] at h
      rcases h with ⟨_, hnext, -⟩ | ⟨_, _, _, _, hnext, -⟩
      · cases hnext
        exact (hdead _ _ rfl).2.2.1 rfl
      · cases hnext
        exact (hdead _ _ rfl).2.1 rfl

theorem Silently.zero : Silently 0 where
  value h := by
    rw [Reader.value] at h
    cases h
  items h := by
    rw [Reader.items] at h
    cases h
  fields h := by
    rw [Reader.fields] at h
    cases h

/-- No name of a field is read from a silent text. -/
theorem NextField.silent (h : NextField first s more t) (hs : Silent s) :
    more = false ∧ Silent t ∨ more = true ∧ Stuck t := by
  cases h with
  | close => exact .inl ⟨rfl, hs⟩
  | first => exact .inr ⟨rfl, silent_quote_iff.mp hs⟩
  | comma hu =>
      have hafter := silent_skipBlanks ((silent_cons_iff (by decide)).mp hs)
      rw [hu] at hafter
      exact .inr ⟨rfl, silent_quote_iff.mp hafter⟩

theorem NextItem.silent (h : NextItem first s more t) (hs : Silent s) : Silent t := by
  cases h with
  | close => exact hs
  | first _ => exact hs
  | comma hu _ =>
      have hafter := silent_skipBlanks ((silent_cons_iff (by decide)).mp hs)
      rwa [hu] at hafter

/-- The next step of the induction. -/
theorem Silently.succ (ih : Silently fuel) : Silently (fuel + 1) where
  value := by
    intro depth s v rest h hs
    have hread := value_eq_ok_iff.mp h
    have hsilent := silent_skipBlanks hs
    generalize skipBlanks s = ahead at hread hsilent
    cases hread with
    | null hword =>
        have ht := (silent_cons_iff (by decide)).mp hsilent
        exact .inl ⟨.null, word_silent hword (List.all_eq_true.mp rfl) ht⟩
    | true hword =>
        have ht := (silent_cons_iff (by decide)).mp hsilent
        exact .inl ⟨.bool _, word_silent hword (List.all_eq_true.mp rfl) ht⟩
    | false hword =>
        have ht := (silent_cons_iff (by decide)).mp hsilent
        exact .inl ⟨.bool _, word_silent hword (List.all_eq_true.mp rfl) ht⟩
    | negative hnumber =>
        exact .inl ⟨.number _, number_silent hnumber ((silent_cons_iff (by decide)).mp hsilent)⟩
    | number _ hnumber => exact .inl ⟨.number _, number_silent hnumber hsilent⟩
    | string hstring =>
        exact .inr ⟨⟨_, rfl⟩, string_dead hstring (silent_quote_iff.mp hsilent)⟩
    | array _ hitems =>
        obtain ⟨hvs, hrest⟩ := ih.items hitems ((silent_cons_iff (by decide)).mp hsilent)
        exact .inl ⟨.array hvs, hrest⟩
    | object _ hfields =>
        obtain ⟨rfl, hrest⟩ := ih.fields hfields ((silent_cons_iff (by decide)).mp hsilent)
        exact .inl ⟨.object, hrest⟩
  items := by
    intro first depth s vs rest h hs
    rcases items_eq_ok_iff.mp h with ⟨t, hnext, rfl, rfl⟩ |
      ⟨t, v, u, others, hnext, hvalue, hitems, rfl⟩
    · have ht := hnext.silent (silent_skipBlanks hs)
      obtain ⟨u, rfl⟩ := hnext.eq_cons
      exact ⟨by simp, (silent_cons_iff (by decide)).mp ht⟩
    · have ht := hnext.silent (silent_skipBlanks hs)
      rcases ih.value hvalue ht with ⟨hv, hu⟩ | ⟨-, hdead⟩
      · obtain ⟨hothers, hrest⟩ := ih.items hitems hu
        exact ⟨List.forall_mem_cons.mpr ⟨hv, hothers⟩, hrest⟩
      · exact absurd hdead (items_not_dead hitems)
  fields := by
    intro first depth known s fs rest h hs
    rcases fields_eq_ok_iff.mp h with ⟨t, hnext, rfl, rfl⟩ |
      ⟨t, name, u, w, v, x, hnext, hstring, hcolon, -, -⟩
    · obtain ⟨-, ht⟩ := (hnext.silent (silent_skipBlanks hs)).resolve_right (by simp)
      obtain ⟨u, rfl⟩ := hnext.eq_cons
      exact ⟨rfl, (silent_cons_iff (by decide)).mp ht⟩
    · obtain ⟨-, ht⟩ := (hnext.silent (silent_skipBlanks hs)).resolve_left (by simp)
      have hdead := string_dead hstring ht
      rw [hdead.skipBlanks_eq] at hcolon
      exact absurd rfl (hdead _ _ hcolon).2.2.2.2

theorem silently (fuel : Nat) : Silently fuel := by
  induction fuel with
  | zero => exact .zero
  | succ fuel ih => exact ih.succ

end Reader

open Reader

/-- **What is read from a silent text is wordless**, or a string and nothing else. -/
theorem Value.parse_silent {text : String} {v : Value} (h : Value.parse text = .ok v)
    (hs : Silent text.toList) : Wordless v ∨ ∃ s, v = .string s := by
  obtain ⟨rest, hvalue, -⟩ := Value.parse_eq_ok_iff.mp h
  rcases (silently _).value hvalue hs with ⟨hv, -⟩ | ⟨hstring, -⟩
  · exact .inl hv
  · exact .inr hstring

end Workbench.Json
