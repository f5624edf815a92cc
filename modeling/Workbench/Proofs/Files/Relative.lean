/-
# Relative paths

A place below another is named by the names between the two. That text, read from the
place where it starts, leads back, if no name holds a backslash: these are written as
slashes, so no name that is read has one.

* `Path.names_relativeText` — **reading the names below a place** gives them again.
* `Path.cancel_plain` — names of entries are read as they are.
* `Path.mem_drop_of_cancel` — **what is read below a place** is among the names that are read.
-/

import Mathlib.Data.String.Basic
import Workbench.Proofs.Files.Spelling

namespace Workbench.Files.Path

variable {path other : Path} {here rest result : List String} {name : String}

/-! ### Slashes for backslashes -/

theorem slashes_eq {text : String} (h : '\\' ∉ text.toList) : slashes text = text := by
  refine String.toList_inj.mp ?_
  rw [slashes, String.toList_ofList]
  refine (List.map_congr_left fun c mem => ?_).trans (List.map_id _)
  have hne : c ≠ '\\' := fun heq => h (heq ▸ mem)
  simp [hne]

theorem not_mem_slashes (text : String) : '\\' ∉ (slashes text).toList := by
  rw [slashes, String.toList_ofList, List.mem_map]
  rintro ⟨c, -, hc⟩
  split at hc
  · exact absurd hc (by decide)
  · next hne => exact hne hc

theorem not_mem_relativeText (h : ∀ name ∈ path, '\\' ∉ name.toList) :
    '\\' ∉ (relativeText path).toList := by
  unfold relativeText
  induction path with
  | nil => simp
  | cons first rest ih =>
      have hrest := ih fun name mem => h name (.tail _ mem)
      cases rest with
      | nil => simpa using h first (.head _)
      | cons second rest =>
          rw [String.intercalate_cons_cons]
          simpa using ⟨h first (.head _), by simpa using hrest⟩

theorem slashes_relativeText (h : ∀ name ∈ path, '\\' ∉ name.toList) :
    slashes (relativeText path) = relativeText path :=
  slashes_eq (not_mem_relativeText h)

/-! ### Names read from a text -/

theorem names_append_slash (first second : String) :
    names (first ++ "/" ++ second) = names first ++ names second := by
  have hlist : (first ++ "/" ++ second).toList = first.toList ++ '/' :: second.toList := by simp
  simp only [names, hlist, parts_append_slash, List.map_append, List.filter_append]

theorem names_append_end (text : String) : names (text ++ "/") = names text := by
  simpa [names, parts] using names_append_slash text ""

/-- The names of a path written after another. -/
theorem names_below (base : String) {text : String} (h : isAbsolute text = false) :
    names (below base text) = names base ++ names text := by
  rw [below, show text.startsWith "/" = false from h, if_neg (by decide)]
  split
  · next hend =>
      rcases (Bool.or_eq_true _ _).mp hend with hempty | hslash
      · rw [String.isEmpty_iff.mp hempty, String.empty_append]
        rfl
      · obtain ⟨start, hstart⟩ : ['/'] <:+ base.toList := by
          simpa using String.Slice.endsWith_string_iff.mp hslash
        obtain rfl : base = String.ofList start ++ "/" := String.toList_inj.mp (by simp [← hstart])
        rw [names_append_slash, names_append_end]
  · exact names_append_slash base text

theorem mem_of_mem_parts {s part : List Char} (hpart : part ∈ parts s) : ∀ c ∈ part, c ∈ s := by
  induction s generalizing part with
  | nil =>
      obtain rfl : part = [] := by simpa [parts] using hpart
      simp
  | cons first rest ih =>
      intro c mem
      simp only [parts] at hpart
      split at hpart
      · next head others hrest =>
          rw [hrest] at ih
          split at hpart
          · rcases List.mem_cons.mp hpart with rfl | hpart
            · simp at mem
            · exact .tail _ (ih hpart c mem)
          · rcases List.mem_cons.mp hpart with rfl | hpart
            · rcases List.mem_cons.mp mem with rfl | mem
              · exact .head _
              · exact .tail _ (ih (.head _) c mem)
            · exact .tail _ (ih (.tail _ hpart) c mem)
      · obtain rfl : part = [first] := by simpa using hpart
        exact List.mem_cons.mpr (.inl (by simpa using mem))

/-- The names of a text are made of its characters. -/
theorem mem_of_mem_names {text : String} (hname : name ∈ names text) :
    ∀ c ∈ name.toList, c ∈ text.toList := by
  obtain ⟨part, hpart, rfl⟩ := List.mem_map.mp (List.mem_filter.mp hname).1
  simpa using mem_of_mem_parts hpart

theorem names_text (hp : Plain path) : names (text path) = path := by
  by_cases hne : path = []
  · subst hne
    decide
  · have hkeep : path.filter (fun name => name != "" && name != ".") = path :=
      List.filter_eq_self.mpr fun name mem => by simp [(hp name mem).1, (hp name mem).2.1]
    rw [names, parts_text hp.named hne]
    simpa using hkeep

/-- **Reading the names below a place** gives them again. -/
theorem names_relativeText (hp : Plain path) : names (relativeText path) = path := by
  have hnames := names_append_slash "" (relativeText path)
  rw [show "" ++ "/" ++ relativeText path = text path by simp [text, relativeText],
    names_text hp] at hnames
  exact hnames.symm

theorem relativeText_injective (hp : Plain path) (ho : Plain other)
    (h : relativeText path = relativeText other) : path = other := by
  rw [← names_relativeText hp, h, names_relativeText ho]

/-- Names between slashes do not start at the root. -/
theorem isAbsolute_relativeText (hp : Plain path) (hne : path ≠ []) (after : String) :
    isAbsolute (relativeText path ++ after) = false := by
  obtain ⟨first, below, rfl⟩ := List.exists_cons_of_ne_nil hne
  obtain ⟨hempty, -, -, hslash⟩ := hp first (.head _)
  obtain ⟨c, rest, hfirst⟩ := List.exists_cons_of_ne_nil (mt String.toList_eq_nil_iff.mp hempty)
  rw [Bool.eq_false_iff, Ne, isAbsolute_iff]
  rintro ⟨others, h⟩
  have hc : c = '/' := by
    cases below with
    | nil => simp_all [relativeText]
    | cons second below => simp_all [relativeText, String.intercalate_cons_cons]
  exact hslash (by simp [hfirst, hc])

/-- Names between slashes do not end with one. -/
theorem relativeText_ne_append_end (hp : Plain path) (hne : path ≠ []) (before : String) :
    relativeText path ≠ before ++ "/" := by
  intro h
  obtain ⟨init, last, rfl⟩ := (List.eq_nil_or_concat' path).resolve_left hne
  obtain ⟨hempty, -, -, hslash⟩ := hp last (by simp)
  obtain ⟨front, hlast⟩ : ∃ front, text (init ++ [last]) = front ++ last := by
    rw [text_concat]
    split
    · exact ⟨_, rfl⟩
    · exact ⟨_, rfl⟩
  have hboth : (front ++ last).toList = ("/" ++ before ++ "/").toList := by
    rw [← hlast, String.append_assoc, ← h, text, relativeText]
  have hend : last.toList.getLast? = some '/' := by
    rw [String.toList_append, String.toList_append] at hboth
    rw [← List.getLast?_append_of_ne_nil _ (mt String.toList_eq_nil_iff.mp hempty), hboth]
    exact List.getLast?_concat
  exact hslash (List.mem_of_getLast? hend)

/-! ### Names read from a place -/

theorem cancelFrom_append (hp : Plain path) (here rest : List String) :
    cancelFrom here (path ++ rest) = cancelFrom (path.reverse ++ here) rest := by
  induction path generalizing here with
  | nil => simp
  | cons name path ih =>
      rw [List.cons_append, cancelFrom_cons_of_ne (hp name (.head _)).2.2.1,
        ih (fun other mem => hp other (.tail _ mem))]
      simp

/-- Names of entries are read as they are. -/
theorem cancel_plain (hp : Plain path) : cancel path = some path := by
  have hread : cancelFrom [] (path ++ []) = _ := cancelFrom_append hp [] []
  rw [List.append_nil] at hread
  simp [cancel, hread, cancelFrom]

/-- Whatever depth one looks at, only names that are read come to lie deeper than before. -/
theorem mem_drop_of_cancelFrom (h : cancelFrom here rest = some result) (depth : Nat) :
    ∀ name ∈ result.reverse.drop depth, name ∈ here.reverse.drop depth ∨ name ∈ rest := by
  induction rest generalizing here with
  | nil =>
      obtain rfl : here = result := by simpa [cancelFrom] using h
      exact fun name mem => .inl mem
  | cons step rest ih =>
      intro name mem
      by_cases hs : step = ".."
      · cases here with
        | nil => simp [cancelFrom, hs] at h
        | cons last above =>
            simp only [cancelFrom, if_pos hs] at h
            rcases ih h name mem with old | new
            · rw [List.reverse_cons, List.drop_append]
              exact .inl (List.mem_append_left _ old)
            · exact .inr (.tail _ new)
      · rw [cancelFrom_cons_of_ne hs] at h
        rcases ih h name mem with old | new
        · rw [List.reverse_cons, List.drop_append] at old
          rcases List.mem_append.mp old with old | new
          · exact .inl old
          · exact .inr (List.mem_cons.mpr (.inl (by simpa using List.mem_of_mem_drop new)))
        · exact .inr (.tail _ new)

/-- **What is read below a place** is among the names that are read from it. -/
theorem mem_drop_of_cancel {root : Path} (hroot : Plain root)
    (h : cancel (root ++ rest) = some path) : ∀ name ∈ path.drop root.length, name ∈ rest := by
  obtain ⟨result, hfrom, rfl⟩ := Option.map_eq_some_iff.mp h
  rw [cancelFrom_append hroot] at hfrom
  intro name mem
  simpa using mem_drop_of_cancelFrom hfrom root.length name mem

end Workbench.Files.Path
