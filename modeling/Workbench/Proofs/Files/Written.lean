/-
# Written paths

What follows a written path whose last part is a name: more of that name, or a slash and
another name. The directory in which all of them are looked for is the same
(`Path.Stem`), and a written path leads where the place does that it stands for, from the
root and without `.` (`Tree.walk_start`).
-/

import Workbench.Proofs.Files.Spelling
import Workbench.Proofs.Files.Walk

namespace Workbench.Files

namespace Path

variable {text tail : String} {dir : List String} {base name other : String}

/-! ### Parts of what follows a text -/

theorem parts_of_not_mem {s : List Char} (h : '/' ∉ s) : parts s = [s] := by
  rw [parts_eq_splitOn, List.splitOn_eq_singleton h]

/-- What follows the last part of a text, up to a slash, is part of it. -/
theorem exists_parts (s : List Char) :
    ∃ before last, '/' ∉ last ∧
      ∀ tail, '/' ∉ tail → parts (s ++ tail) = before ++ [last ++ tail] := by
  induction s with
  | nil => exact ⟨[], [], by simp, fun tail h => by simp [parts_of_not_mem h]⟩
  | cons c s ih =>
      obtain ⟨before, last, hlast, hparts⟩ := ih
      by_cases hc : c = '/'
      · refine ⟨[] :: before, last, hlast, fun tail h => ?_⟩
        rw [List.cons_append, parts, hparts tail h]
        cases before <;> simp [hc]
      · cases before with
        | nil =>
            refine ⟨[], c :: last, by simp [hlast, Ne.symm hc], fun tail h => ?_⟩
            rw [List.cons_append, parts, hparts tail h]
            simp [hc]
        | cons first before =>
            refine ⟨(c :: first) :: before, last, hlast, fun tail h => ?_⟩
            rw [List.cons_append, parts, hparts tail h]
            simp [hc]

theorem steps_of_parts {before : List String}
    (h : (parts text.toList).map String.ofList = before ++ [name]) (hname : name ≠ "") :
    steps text = before.filter (· != "") ++ [name] := by
  rw [steps, h]
  simp [hname]

/-- What a written path is followed through whose last part is part of a name: the
directory in which that name is, and so is what follows it. -/
structure Stem (text : String) (dir : List String) (name : String) : Prop where
  named : Named dir
  isName : '/' ∉ name.toList
  steps : ∀ tail : String, '/' ∉ tail.toList → name ++ tail ≠ "" →
    Path.steps (text ++ tail) = dir ++ [name ++ tail]
  below : ∀ tail other : String, '/' ∉ tail.toList → name ++ tail ≠ "" → '/' ∉ other.toList →
    other ≠ "" → Path.steps (text ++ tail ++ "/" ++ other) = dir ++ [name ++ tail, other]

/-- Every written path has a last part. -/
theorem exists_stem (text : String) : ∃ dir name, Stem text dir name := by
  obtain ⟨before, last, hlast, hparts⟩ := exists_parts text.toList
  have happend (tail : String) (h : '/' ∉ tail.toList) :
      parts (text ++ tail).toList = before ++ [last ++ tail.toList] := by
    rw [String.toList_append, hparts _ h]
  refine ⟨(before.map String.ofList).filter (· != ""), String.ofList last, ?_, by simpa using hlast,
    fun tail h hne => ?_, fun tail other h hne hother hsome => ?_⟩
  · intro step mem
    obtain ⟨⟨part, hpart, rfl⟩, hne⟩ :
        (∃ part ∈ before, String.ofList part = step) ∧ step ≠ "" := by
      simpa using mem
    have hmem : part ∈ parts text.toList := by
      have := hparts [] (by simp)
      rw [List.append_nil] at this
      rw [this]
      exact List.mem_append_left _ hpart
    exact ⟨hne, by simpa using not_mem_of_mem_parts hmem⟩
  · refine steps_of_parts ?_ hne
    rw [happend tail h]
    simp
  · have hall : (parts (text ++ tail ++ "/" ++ other).toList).map String.ofList =
        (before.map String.ofList ++ [String.ofList last ++ tail]) ++ [other] := by
      rw [String.toList_append, String.toList_append, show "/".toList = ['/'] from rfl,
        List.append_assoc, List.singleton_append, parts_append_slash, happend tail h,
        parts_of_not_mem hother]
      simp
    rw [steps_of_parts hall hsome, List.filter_append]
    simp [hne]

/-- A written path is absolute or not whatever follows it. -/
theorem isAbsolute_append (hne : text ≠ "") (tail : String) :
    isAbsolute (text ++ tail) = isAbsolute text := by
  rw [Bool.eq_iff_iff, isAbsolute_iff, isAbsolute_iff, String.toList_append]
  cases h : text.toList with
  | nil => exact absurd (String.toList_inj.mp h) hne
  | cons c s => simp

theorem not_endsWith_slash (text : String) (h : '/' ∉ tail.toList) (hne : tail ≠ "") :
    (text ++ tail).endsWith "/" = false := by
  rw [Bool.eq_false_iff]
  intro hend
  obtain ⟨start, hstart⟩ : ['/'] <:+ (text ++ tail).toList := by
    simpa using String.Slice.endsWith_string_iff.mp hend
  have htail : tail.toList ≠ [] := fun hnil => hne (String.toList_inj.mp hnil)
  have hlast : (text ++ tail).toList.getLast? = some (tail.toList.getLast htail) := by
    rw [String.toList_append, List.getLast?_append_of_ne_nil _ htail,
      List.getLast?_eq_getLast_of_ne_nil htail]
  rw [← hstart, List.getLast?_concat] at hlast
  exact h (Option.some.inj hlast ▸ List.getLast_mem htail)

/-- A name below a path that ends in a name is written after a slash. -/
theorem below_append (text : String) (h : '/' ∉ tail.toList) (hne : tail ≠ "")
    (hother : '/' ∉ other.toList) : below (text ++ tail) other = text ++ tail ++ "/" ++ other := by
  have hstart : other.startsWith "/" = false := by
    rw [Bool.eq_false_iff]
    intro hstart
    obtain ⟨rest, hrest⟩ := isAbsolute_iff.mp hstart
    simp [hrest] at hother
  have hempty : (text ++ tail).isEmpty = false := by
    simp [hne]
  rw [below, hstart, hempty, not_endsWith_slash text h hne]
  simp

/-- A written path can be handed to the operating system. -/
def Given (text : String) : Prop :=
  '\x00' ∉ text.toList ∧ text ≠ "" ∧ text.utf8ByteSize ≤ textLimit

/-! ### Names below a written path -/

/-- The names that a written path is followed through before another one. -/
def inner (text : String) : List String :=
  ((parts text.toList).map String.ofList).filter (· != "")

theorem steps_cases (text : String) :
    steps text = inner text ∨ steps text = inner text ++ ["."] := by
  by_cases h : ((parts text.toList).map String.ofList).getLast? = some "" ∧ inner text ≠ []
  · right
    simp only [steps]
    rw [if_pos (by simpa [inner] using h)]
    rfl
  · left
    simp only [steps]
    rw [if_neg (by simpa [inner] using h)]
    rfl

theorem not_startsWith_slash (h : '/' ∉ name.toList) : name.startsWith "/" = false := by
  rw [Bool.eq_false_iff]
  intro hstart
  obtain ⟨rest, hrest⟩ := isAbsolute_iff.mp hstart
  simp [hrest] at h

/-- A name is written below a path after the path, or after the path and a slash. -/
theorem below_cases (base : String) :
    ((base = "" ∨ ∃ start, base = start ++ "/") ∧
      ∀ name : String, '/' ∉ name.toList → below base name = base ++ name) ∨
    (base ≠ "" ∧ ∀ name : String, '/' ∉ name.toList → below base name = base ++ "/" ++ name) := by
  by_cases hend : (base.isEmpty || base.endsWith "/") = true
  · refine .inl ⟨?_, fun name h => ?_⟩
    · rcases Bool.or_eq_true _ _ ▸ hend with hempty | hslash
      · exact .inl (by simpa using hempty)
      · obtain ⟨start, hstart⟩ : ['/'] <:+ base.toList := by
          simpa using String.Slice.endsWith_string_iff.mp hslash
        exact .inr ⟨String.ofList start, String.toList_inj.mp (by simp [← hstart])⟩
    · rw [below, not_startsWith_slash h, if_neg (by simp), if_pos hend]
  · refine .inr ⟨?_, fun name h => ?_⟩
    · rintro rfl
      simp at hend
    · rw [below, not_startsWith_slash h, if_neg (by simp), if_neg hend]

/-- **A name below a path** is the last that is followed. -/
theorem steps_below (base : String) (h : '/' ∉ name.toList) (hne : name ≠ "") :
    steps (below base name) = inner base ++ [name] := by
  have hname : (parts name.toList).map String.ofList = [name] := by simp [parts_of_not_mem h]
  have hslash (start : String) :
      (parts (start ++ "/" ++ name).toList).map String.ofList =
        (parts start.toList).map String.ofList ++ [name] := by
    rw [String.toList_append, String.toList_append, show "/".toList = ['/'] from rfl,
      List.append_assoc, List.singleton_append, parts_append_slash, List.map_append, hname]
  rcases below_cases base with ⟨hbase, hbelow⟩ | ⟨-, hbelow⟩
  · rw [hbelow name h]
    rcases hbase with rfl | ⟨start, rfl⟩
    · rw [String.empty_append, steps, hname]
      simp [inner, parts, hne]
    · rw [steps_of_parts (hslash start) hne]
      have hparts : parts (start ++ "/").toList = parts start.toList ++ [[]] := by
        rw [String.toList_append, show "/".toList = '/' :: [] from rfl, parts_append_slash]
        rfl
      rw [inner, hparts, List.map_append, List.filter_append]
      simp
  · rw [hbelow name h, steps_of_parts (hslash base) hne]
    rfl

theorem below_append_tail (h : '/' ∉ (name ++ tail).toList) :
    below base name ++ tail = below base (name ++ tail) := by
  have hname : '/' ∉ name.toList := fun mem => h (by simp [mem])
  rcases below_cases base with ⟨-, hbelow⟩ | ⟨-, hbelow⟩
  · rw [hbelow name hname, hbelow _ h, String.append_assoc]
  · rw [hbelow name hname, hbelow _ h, String.append_assoc]

theorem below_injective {other : String} (h : '/' ∉ name.toList) (hother : '/' ∉ other.toList)
    (heq : below base name = below base other) : name = other := by
  rcases below_cases base with ⟨-, hbelow⟩ | ⟨-, hbelow⟩
  · rw [hbelow name h, hbelow other hother] at heq
    exact String.append_right_inj _ |>.mp heq
  · rw [hbelow name h, hbelow other hother] at heq
    exact String.append_right_inj _ |>.mp heq

theorem isAbsolute_below (hbase : base ≠ "") (h : '/' ∉ name.toList) :
    isAbsolute (below base name) = isAbsolute base := by
  rcases below_cases base with ⟨-, hbelow⟩ | ⟨-, hbelow⟩
  · rw [hbelow name h, isAbsolute_append hbase]
  · rw [hbelow name h, String.append_assoc, isAbsolute_append hbase]

/-- Whether names below a path are found from the root does not depend on the name. -/
theorem isAbsolute_below_eq {other : String} (h : '/' ∉ name.toList) (hother : '/' ∉ other.toList) :
    isAbsolute (below base name) = isAbsolute (below base other) := by
  by_cases hbase : base = ""
  · have hrelative {last : String} (h : '/' ∉ last.toList) : isAbsolute (below base last) = false := by
      rw [hbase, below, not_startsWith_slash h, if_neg (by simp), if_pos (by simp),
        String.empty_append]
      exact not_startsWith_slash h
    rw [hrelative h, hrelative hother]
  · rw [isAbsolute_below hbase h, isAbsolute_below hbase hother]

theorem given_of_below (hbase : base ≠ "") (h : '/' ∉ name.toList)
    (hgiven : Given (below base name)) : Given base := by
  obtain ⟨hzero, -, hsize⟩ := hgiven
  obtain ⟨more, hmore⟩ : ∃ more, below base name = base ++ more := by
    rcases below_cases base with ⟨-, hbelow⟩ | ⟨-, hbelow⟩
    · exact ⟨name, hbelow name h⟩
    · exact ⟨"/" ++ name, by rw [hbelow name h, String.append_assoc]⟩
  rw [hmore] at hzero hsize
  refine ⟨fun mem => hzero (by simp [mem]), hbase, ?_⟩
  rw [String.utf8ByteSize_append] at hsize
  omega

end Path

namespace Tree

variable {tree : Tree} {follow : Bool} {links : Nat} {here start base : Path}
  {dir names more : List String} {name text : String} {place : Place}

/-! ### Where written paths lead -/

theorem find_of_given (h : Path.Given text) :
    tree.find follow text = tree.walk follow linkLimit (tree.start text) (Path.steps text) := by
  obtain ⟨hzero, hne, hsize⟩ := h
  rw [find, if_neg (by simpa using hzero), if_neg hne, if_neg (Nat.not_lt.mpr hsize)]

theorem find_eq_ok_iff :
    tree.find follow text = .ok place ↔
      Path.Given text ∧ tree.Leads follow linkLimit (tree.start text) (Path.steps text) place := by
  rw [← walk_eq_ok_iff]
  unfold find Path.Given
  split
  · next hzero => simp [show '\x00' ∈ text.toList by simpa using hzero]
  · next hzero =>
      split
      · next hempty => simp [hempty]
      · next hempty =>
          split
          · next hlong => simp [Nat.not_le.mpr hlong]
          · next hlong =>
              have hzero : '\x00' ∉ text.toList := by simpa using hzero
              simp [hzero, hempty, Nat.not_lt.mp hlong]

theorem given_of_find (hne : text ≠ "")
    (h : (∃ place, tree.find follow text = .ok place) ∨ tree.find follow text = .error .missing) :
    Path.Given text := by
  simp only [find, if_neg hne] at h
  split at h
  · simp at h
  · next hzero =>
      split at h
      · simp at h
      · next hlong => exact ⟨by simpa using hzero, hne, Nat.not_lt.mp hlong⟩

/-! ### Where they start -/

theorem walkWith_skip {beyond : Path → List String → Except Fault Place} (hmore : more ≠ [])
    (hbeyond : ∀ here names, beyond here (names ++ "." :: more) = beyond here (names ++ more)) :
    tree.walkWith follow beyond here (names ++ "." :: more) =
      tree.walkWith follow beyond here (names ++ more) := by
  induction names generalizing here with
  | nil => simp [walkWith]
  | cons name names ih =>
      have hnone : names ++ "." :: more ≠ [] := by simp
      have hnone' : names ++ more ≠ [] := by simp [hmore]
      simp only [List.cons_append, walkWith, ih, ← List.append_assoc, hbeyond, hnone, hnone']

/-- A dot before other names is read away. -/
theorem walk_skip (hmore : more ≠ []) :
    tree.walk follow links here (names ++ "." :: more) =
      tree.walk follow links here (names ++ more) := by
  induction links generalizing here names with
  | zero => exact walkWith_skip hmore fun _ _ => rfl
  | succ links ih => exact walkWith_skip hmore fun _ _ => ih

theorem walk_filter (hmore : more ≠ []) :
    tree.walk follow links here (names ++ dir ++ more) =
      tree.walk follow links here (names ++ dir.filter (· != ".") ++ more) := by
  induction dir generalizing names with
  | nil => rfl
  | cons step dir ih =>
      by_cases hdot : step = "."
      · subst hdot
        rw [List.append_assoc, List.cons_append, walk_skip (by simp [hmore]), ← List.append_assoc,
          ih]
        simp
      · have hkeep : (step :: dir).filter (· != ".") = step :: dir.filter (· != ".") := by
          simp [hdot]
        rw [hkeep, List.append_cons names step dir, ih, ← List.append_cons]

theorem walk_descend (hopen : ∀ via, via <+: start → tree.HasDirectory via)
    (hplain : Path.Plain start) (hshort : ∀ name ∈ start, name.utf8ByteSize ≤ Path.nameLimit) :
    tree.walk follow links [] (start ++ names) = tree.walk follow links start names := by
  induction start using List.reverseRecOn generalizing names with
  | nil => rfl
  | append_singleton start name ih =>
      obtain ⟨hstart, hname⟩ := Path.plain_append.mp hplain
      obtain ⟨-, hdot, hup, -⟩ := Path.plain_singleton.mp hname
      obtain ⟨mode, hmode⟩ := hasDirectory_iff.mp (hopen _ (List.prefix_refl _))
      have hentering : Entering name := ⟨hdot, hup, hshort name (by simp)⟩
      rw [List.append_assoc, ih (fun via h => hopen via (h.trans (List.prefix_append ..))) hstart
        (fun n mem => hshort n (List.mem_append_left _ mem)), List.singleton_append,
        walk_into hentering hmode]

/-- **A written path leads where the place does** that it stands for. -/
theorem walk_start (hopen : ∀ via, via <+: start → tree.HasDirectory via)
    (hplain : Path.Plain start) (hshort : ∀ name ∈ start, name.utf8ByteSize ≤ Path.nameLimit)
    (hmore : more ≠ []) :
    tree.walk follow links start (dir ++ more) =
      tree.walk follow links [] (start ++ dir.filter (· != ".") ++ more) := by
  rw [List.append_assoc, walk_descend hopen hplain hshort, ← List.nil_append (dir ++ more),
    ← List.append_assoc, walk_filter hmore, List.nil_append]

end Tree

end Workbench.Files
