/-
# The spelling of paths

A place whose names are names of entries is written as a path that leads back to
it: no name is empty, none is `.` or `..`, and none holds a slash.

* `Path.IsName`, `Path.Plain` — the names that entries can have, and places made of them.
* `Path.steps_text` — **reading the written form of a plain place** gives its names.
* `Path.plain_of_cancel` — the place that a written path stands for is plain.
-/

import Workbench.Files.Path

namespace Workbench.Files.Path

/-! ### Names -/

/-- A name that an entry can have. -/
def IsName (name : String) : Prop :=
  name ≠ "" ∧ name ≠ "." ∧ name ≠ ".." ∧ '/' ∉ name.toList

instance (name : String) : Decidable (IsName name) :=
  inferInstanceAs (Decidable (_ ∧ _ ∧ _ ∧ _))

/-- A place whose names are names of entries. -/
def Plain (path : Path) : Prop :=
  ∀ name ∈ path, IsName name

instance (path : Path) : Decidable (Plain path) :=
  inferInstanceAs (Decidable (∀ name ∈ path, IsName name))

theorem plain_nil : Plain [] := by simp [Plain]

theorem plain_append {path rest : Path} : Plain (path ++ rest) ↔ Plain path ∧ Plain rest := by
  simp only [Plain, List.mem_append]
  exact ⟨fun h => ⟨fun n hn => h n (.inl hn), fun n hn => h n (.inr hn)⟩,
    fun h n hn => hn.elim (h.1 n) (h.2 n)⟩

theorem plain_singleton {name : String} : Plain [name] ↔ IsName name := by simp [Plain]

theorem Plain.of_isPrefix {path rest : Path} (h : Plain rest) (hp : path <+: rest) : Plain path :=
  fun name mem => h name (hp.subset mem)

theorem Plain.dropLast {path : Path} (h : Plain path) : Plain path.dropLast :=
  h.of_isPrefix (List.dropLast_prefix path)

/-- Names that can be written one after the other, `.` and `..` among them. -/
def Named (path : Path) : Prop :=
  ∀ name ∈ path, name ≠ "" ∧ '/' ∉ name.toList

theorem Plain.named {path : Path} (h : Plain path) : Named path :=
  fun name mem => ⟨(h name mem).1, (h name mem).2.2.2⟩

/-! ### Parts -/

/-- The parts of a text are those that the slashes separate. -/
theorem parts_eq_splitOn (s : List Char) : parts s = s.splitOn '/' := by
  induction s with
  | nil => rfl
  | cons c rest ih =>
      rw [parts, ih, List.splitOn_cons_eq_if_modifyHead]
      cases h : rest.splitOn '/' with
      | nil => exact (List.splitOn_ne_nil _ _ h).elim
      | cons part others => simp [List.modifyHead]

theorem parts_append_slash (s rest : List Char) :
    parts (s ++ '/' :: rest) = parts s ++ parts rest := by
  rw [parts_eq_splitOn, parts_eq_splitOn, parts_eq_splitOn, List.splitOn_append_cons_self]

theorem not_mem_of_mem_parts {s part : List Char} (h : part ∈ parts s) : '/' ∉ part := by
  induction s generalizing part with
  | nil => simp_all [parts]
  | cons c rest ih =>
      rw [parts_eq_splitOn, List.splitOn_cons_eq_if_modifyHead, ← parts_eq_splitOn] at h
      by_cases hc : c = '/'
      · obtain rfl | h : part = [] ∨ part ∈ parts rest := by simpa [hc] using h
        · simp
        · exact ih h
      · cases hrest : parts rest with
        | nil => simp [hrest, hc] at h
        | cons first others =>
            rw [hrest] at h ih
            obtain rfl | h : part = c :: first ∨ part ∈ others := by
              simpa [hc, List.modifyHead] using h
            · have : '/' ∉ first := ih (.head _)
              simp [this, Ne.symm hc]
            · exact ih (by simp [h])

theorem isAbsolute_iff {s : String} : isAbsolute s = true ↔ ∃ rest, s.toList = '/' :: rest := by
  rw [isAbsolute, String.startsWith_string_iff]
  exact ⟨fun ⟨rest, h⟩ => ⟨rest, h.symm⟩, fun ⟨rest, h⟩ => ⟨rest, h.symm⟩⟩

/-! ### The written form of a place -/

theorem toList_text (path : Path) :
    (text path).toList = '/' :: ['/'].intercalate (path.map String.toList) := by
  simp [text]

theorem text_ne_empty (path : Path) : text path ≠ "" := by
  intro h
  simpa [h] using toList_text path

@[simp] theorem isAbsolute_text (path : Path) : isAbsolute (text path) = true :=
  isAbsolute_iff.mpr ⟨_, toList_text path⟩

theorem parts_text {path : Path} (hp : Named path) (hne : path ≠ []) :
    (parts (text path).toList).map String.ofList = "" :: path := by
  have hslash : ∀ l ∈ path.map String.toList, '/' ∉ l := by
    intro l hl
    obtain ⟨name, mem, rfl⟩ := List.mem_map.mp hl
    exact (hp name mem).2
  rw [toList_text, parts_eq_splitOn, List.splitOn_cons_eq_if_modifyHead, if_pos (by simp),
    List.splitOn_intercalate _ hslash (by simpa using hne)]
  simp

/-- **Reading the written form of names** gives the names. -/
theorem steps_text_of_named {path : Path} (hp : Named path) : steps (text path) = path := by
  by_cases hne : path = []
  · subst hne
    decide
  · have hfull : path.filter (· != "") = path :=
      List.filter_eq_self.mpr fun name mem => by simpa using (hp name mem).1
    have hlast : ("" :: path).getLast? ≠ some "" := by
      rw [List.getLast?_cons_of_ne_nil hne]
      intro h
      exact (hp "" (List.mem_of_getLast? h)).1 rfl
    rw [steps, parts_text hp hne]
    simp [hfull, hlast]

theorem steps_text {path : Path} (hp : Plain path) : steps (text path) = path :=
  steps_text_of_named hp.named

/-- The written form of a place is that of the directory it is in, and its name. -/
theorem text_concat (path : Path) (name : String) :
    text (path ++ [name]) = if path = [] then "/" ++ name else text path ++ "/" ++ name := by
  split
  · next h => simp [h, text]
  · next h =>
      refine String.toList_inj.mp ?_
      rw [String.toList_append, String.toList_append, toList_text, toList_text]
      induction path with
      | nil => exact absurd rfl h
      | cons first rest ih =>
          cases rest with
          | nil => simp [List.intercalate]
          | cons second rest => simpa using ih (by simp)

theorem text_injective {path other : Path} (hp : Plain path) (ho : Plain other)
    (h : text path = text other) : path = other := by
  rw [← steps_text hp, h, steps_text ho]

/-! ### The place of a written path -/

theorem mem_names {s name : String} (h : name ∈ names s) :
    name ≠ "" ∧ name ≠ "." ∧ '/' ∉ name.toList := by
  obtain ⟨mem, keep⟩ := List.mem_filter.mp h
  obtain ⟨part, hpart, rfl⟩ := List.mem_map.mp mem
  have hslash := not_mem_of_mem_parts hpart
  simp only [Bool.and_eq_true, bne_iff_ne] at keep
  exact ⟨keep.1, keep.2, by simpa using hslash⟩

theorem cancelFrom_cons_of_ne {name : String} (h : name ≠ "..") (here rest : List String) :
    cancelFrom here (name :: rest) = cancelFrom (name :: here) rest := by
  cases here <;> simp [cancelFrom, h]

/-- What is read from a place is made of the names there and of those read. -/
theorem mem_of_cancelFrom {here rest path : List String} (h : cancelFrom here rest = some path) :
    ∀ name ∈ path, name ∈ here ∨ (name ∈ rest ∧ name ≠ "..") := by
  induction rest generalizing here with
  | nil =>
      obtain rfl : here = path := by simpa [cancelFrom] using h
      exact fun name mem => .inl mem
  | cons step rest ih =>
      intro name mem
      by_cases hs : step = ".."
      · cases here with
        | nil => simp [cancelFrom, hs] at h
        | cons last above =>
            simp only [cancelFrom, if_pos hs] at h
            rcases ih h name mem with old | new
            · exact .inl (.tail _ old)
            · exact .inr ⟨.tail _ new.1, new.2⟩
      · rw [cancelFrom_cons_of_ne hs] at h
        rcases ih h name mem with old | new
        · obtain rfl | old := List.mem_cons.mp old
          · exact .inr ⟨.head _, hs⟩
          · exact .inl old
        · exact .inr ⟨.tail _ new.1, new.2⟩

/-- The place that names stand for is plain, whatever `..` stands among them. -/
theorem plain_of_cancel {given : List String} {path : Path}
    (hgiven : ∀ name ∈ given, name ≠ "" ∧ name ≠ "." ∧ '/' ∉ name.toList)
    (h : cancel given = some path) : Plain path := by
  obtain ⟨reversed, hfrom, rfl⟩ := Option.map_eq_some_iff.mp h
  intro name mem
  rcases mem_of_cancelFrom hfrom name (List.mem_reverse.mp mem) with old | ⟨new, hdots⟩
  · simp at old
  · obtain ⟨hempty, hdot, hslash⟩ := hgiven name new
    exact ⟨hempty, hdot, hdots, hslash⟩

end Workbench.Files.Path
