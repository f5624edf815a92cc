/-
# Temporary names

A file is rewritten through another one beside it, whose name no entry of the tree
has. There is such a name in every tree: the tags are pairwise different, and one
more of them is tried than there are entries.

* `Tree.tag_injective`, `Tree.length_tag` — tags, and how long they are.
* `Tree.get?_freeName` — **the name that is chosen is free in every directory**.
-/

import Mathlib.Data.List.Nodup
import Mathlib.Data.Nat.Digits.Defs
import Workbench.Files.Access
import Workbench.Proofs.Files.Lookup
import Workbench.Proofs.Text.Position

namespace Workbench.Files.Tree

open Workbench.Text

/-! ### Tags -/

/-- The value of a hexadecimal digit. -/
def digitValue (c : Char) : Nat :=
  if c.isDigit then c.toNat - 48 else c.toNat - 87

/-- The number that hexadecimal digits write. -/
def digitsValue (digits : List Char) : Nat :=
  digits.foldl (fun value c => 16 * value + digitValue c) 0

theorem digitValue_digitChar {n : Nat} (h : n < 16) : digitValue n.digitChar = n := by
  have : ∀ n < 16, digitValue (Nat.digitChar n) = n := by decide
  exact this n h

theorem digitsValue_concat (digits : List Char) (c : Char) :
    digitsValue (digits ++ [c]) = 16 * digitsValue digits + digitValue c := by
  simp [digitsValue]

theorem digitsValue_toDigits (n : Nat) : digitsValue (Nat.toDigits 16 n) = n := by
  induction n using Nat.strongRecOn with
  | ind n ih =>
      by_cases h : n < 16
      · rw [Nat.toDigits_of_lt_base h]
        simp [digitsValue, digitValue_digitChar h]
      · rw [Nat.toDigits_of_base_le (by decide) (by omega), digitsValue_concat,
          ih (n / 16) (by omega), digitValue_digitChar (by omega)]
        omega

theorem digitsValue_replicate (count : Nat) (digits : List Char) :
    digitsValue (List.replicate count '0' ++ digits) = digitsValue digits := by
  induction count with
  | zero => rfl
  | succ count ih => simpa [List.replicate_succ, digitsValue, digitValue] using ih

theorem toList_tag (n : Nat) :
    (tag n).toList =
      List.replicate (32 - (Nat.toDigits 16 n).length) '0' ++ Nat.toDigits 16 n := by
  simp [tag]

/-- Different numbers have different tags. -/
theorem tag_injective {n m : Nat} (h : tag n = tag m) : n = m := by
  have hvalue := congrArg (fun s => digitsValue s.toList) h
  simpa [toList_tag, digitsValue_replicate, digitsValue_toDigits] using hvalue

theorem length_tag_ge (n : Nat) : 32 ≤ (tag n).toList.length := by
  rw [toList_tag, List.length_append, List.length_replicate]
  omega

theorem length_tag {n : Nat} (h : n < 16 ^ 32) : (tag n).toList.length = 32 := by
  have hle := Nat.toDigits_length 16 n 32 (by decide) h
  rw [toList_tag, List.length_append, List.length_replicate]
  omega

theorem mem_toDigits {n : Nat} {c : Char} (h : c ∈ Nat.toDigits 16 n) :
    ∃ digit < 16, c = Nat.digitChar digit := by
  induction n using Nat.strongRecOn with
  | ind n ih =>
      by_cases hlt : n < 16
      · rw [Nat.toDigits_of_lt_base hlt] at h
        exact ⟨n, hlt, by simpa using h⟩
      · rw [Nat.toDigits_of_base_le (by decide) (by omega), List.mem_append] at h
        rcases h with h | h
        · exact ih (n / 16) (by omega) h
        · exact ⟨n % 16, by omega, by simpa using h⟩

/-- A tag is made of digits. -/
theorem mem_tag {n : Nat} {c : Char} (h : c ∈ (tag n).toList) :
    ∃ digit < 16, c = Nat.digitChar digit := by
  rw [toList_tag, List.mem_append] at h
  rcases h with h | h
  · exact ⟨0, by decide, (List.mem_replicate.mp h).2⟩
  · exact mem_toDigits h

theorem not_mem_tag {c : Char} (h : ∀ digit < 16, c ≠ Nat.digitChar digit) (n : Nat) :
    c ∉ (tag n).toList := by
  intro mem
  obtain ⟨digit, hlt, heq⟩ := mem_tag mem
  exact h digit hlt heq

theorem utf8ByteSize_tag (n : Nat) : (tag n).utf8ByteSize = (tag n).toList.length := by
  have hsize : ∀ c ∈ (tag n).toList, c.utf8Size = 1 := by
    intro c mem
    obtain ⟨digit, hlt, rfl⟩ := mem_tag mem
    have : ∀ digit < 16, (Nat.digitChar digit).utf8Size = 1 := by decide
    exact this digit hlt
  rw [← byteLength_toList]
  exact byteLength_of_ascii hsize

/-! ### Names of temporary files -/

variable {name : String} {n m : Nat}

theorem toList_temporaryName (name : String) (n : Nat) :
    (temporaryName name n).toList =
      '.' :: name.toList ++ '.' :: (tag n).toList ++ ['.', 't', 'm', 'p'] := by
  simp [temporaryName]

theorem utf8ByteSize_temporaryName (name : String) (n : Nat) :
    (temporaryName name n).utf8ByteSize = name.utf8ByteSize + (tag n).toList.length + 6 := by
  simp only [temporaryName, String.utf8ByteSize_append, utf8ByteSize_tag]
  have : ".".utf8ByteSize = 1 ∧ ".tmp".utf8ByteSize = 4 := by decide
  omega

theorem temporaryName_injective (h : temporaryName name n = temporaryName name m) : n = m := by
  have hlist := congrArg String.toList h
  rw [toList_temporaryName, toList_temporaryName] at hlist
  simpa using tag_injective (n := n) (m := m) (by
    refine String.toList_inj.mp ?_
    simpa using hlist)

theorem temporaryName_ne (name : String) (n : Nat) : temporaryName name n ≠ name := by
  intro h
  have := congrArg String.utf8ByteSize h
  rw [utf8ByteSize_temporaryName] at this
  omega

theorem zero_mem_temporaryName : '\x00' ∈ (temporaryName name n).toList ↔ '\x00' ∈ name.toList := by
  have := not_mem_tag (c := '\x00') (by decide) n
  simp [toList_temporaryName, this]

/-- A temporary file has the name of an entry. -/
theorem isName_temporaryName (hslash : '/' ∉ name.toList) (n : Nat) :
    Path.IsName (temporaryName name n) := by
  have hsize : 38 ≤ (temporaryName name n).utf8ByteSize := by
    have := length_tag_ge n
    rw [utf8ByteSize_temporaryName]
    omega
  refine ⟨?_, ?_, ?_, ?_⟩
  · rintro h
    exact absurd (h ▸ hsize) (by decide)
  · rintro h
    exact absurd (h ▸ hsize) (by decide)
  · rintro h
    exact absurd (h ▸ hsize) (by decide)
  · have := not_mem_tag (c := '/') (by decide) n
    simp [toList_temporaryName, hslash, this]

/-! ### The name that is chosen -/

/-- The name that is chosen is one of those that are tried. -/
theorem freeName_eq (tree : Tree) (name : String) :
    ∃ n ≤ tree.entries.length, tree.freeName name = temporaryName name n ∧
      tree.freeName name ∉ tree.entries.filterMap fun (path, _) => path.getLast? := by
  let taken := tree.entries.filterMap fun (path, _) => path.getLast?
  let tried := List.range (tree.entries.length + 1)
  cases h : tried.find? fun n => !taken.contains (temporaryName name n) with
  | some n =>
      have hname : tree.freeName name = temporaryName name n := by
        simp only [freeName, taken, tried] at h ⊢
        rw [h]
      have hle : n ≤ tree.entries.length := by
        have := List.mem_range.mp (List.mem_of_find?_eq_some h)
        omega
      have hfree := List.find?_some h
      exact ⟨n, hle, hname, by simpa [hname, taken] using hfree⟩
  | none =>
      -- All the names are taken, but they are one more than the entries.
      have hsubset : tried.map (temporaryName name) ⊆ taken := by
        intro taker mem
        obtain ⟨n, hn, rfl⟩ := List.mem_map.mp mem
        simpa using List.find?_eq_none.mp h n hn
      have hdistinct : (tried.map (temporaryName name)).Nodup :=
        List.Nodup.map (fun _ _ => temporaryName_injective) List.nodup_range
      have hle := hdistinct.length_le_of_subset hsubset
      have htaken : taken.length ≤ tree.entries.length := List.length_filterMap_le ..
      simp only [tried, List.length_map, List.length_range] at hle
      omega

/-- **The name that is chosen is free in every directory.** -/
theorem get?_freeName (tree : Tree) (name : String) (dir : Path) :
    tree.get? (dir ++ [tree.freeName name]) = none := by
  obtain ⟨n, -, -, hfree⟩ := freeName_eq tree name
  cases h : tree.get? (dir ++ [tree.freeName name]) with
  | none => rfl
  | some entry =>
      have mem := mem_of_get?_eq_some (by simp) h
      exact absurd (List.mem_filterMap.mpr ⟨_, mem, by simp⟩) hfree

/-! ### The temporary file for a place -/

/-- The name of the temporary file for the file at a place. -/
abbrev temporary (tree : Tree) (path : Path) : String :=
  tree.freeName (path.getLast?.getD "")

theorem temporary_eq (tree : Tree) (path : Path) :
    ∃ n ≤ tree.entries.length, tree.temporary path = temporaryName (path.getLast?.getD "") n := by
  obtain ⟨n, hle, hname, -⟩ := freeName_eq tree (path.getLast?.getD "")
  exact ⟨n, hle, hname⟩

theorem get?_temporary (tree : Tree) (path dir : Path) :
    tree.get? (dir ++ [tree.temporary path]) = none :=
  get?_freeName tree _ dir

theorem isName_temporary {path : Path} (hplain : Path.Plain path) (tree : Tree) :
    Path.IsName (tree.temporary path) := by
  obtain ⟨n, -, hname⟩ := temporary_eq tree path
  rw [hname]
  refine isName_temporaryName ?_ n
  cases h : path.getLast? with
  | none => simp
  | some name => exact (hplain name (List.mem_of_getLast? h)).2.2.2

end Workbench.Files.Tree
