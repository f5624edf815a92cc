/-
# One stretch of a file is replaced

A replacement looks for a text character by character, and goes on one character after each
place where it is found. In the bytes of the file it finds it wherever it occurs, at the end
of the file and where occurrences overlap too: `offsets_eq`. So exactly the stretches that
occur once can be replaced.

* `offsets_eq` — where a text is found, in bytes.
* `ofChars_replaceAt`, `lineAt_eq` — the edited text and the lines that are told, in bytes.
* `replace_unique_occurrence` — **what a replacement does**, and when it is refused.
-/

import Workbench.Proofs.Editor.Splicing
import Workbench.Proofs.Text.Bytewise

namespace Workbench.Editor

open Workbench.Files Workbench.Files.Tree Workbench.Text Workbench.Text.Octets

/-! ### Occurrences in bytes -/

section Texts

variable {old s : List Char} {k : Nat}

theorem occurrencesFrom_eq (old s : List Char) (start : Nat) :
    occurrencesFrom old start s = (occurrences old s).map (start + ·) := by
  induction s generalizing start with
  | nil => by_cases h : old = [] <;> simp [occurrences, occurrencesFrom, h]
  | cons c s ih =>
      simp only [occurrences, occurrencesFrom, ih (start + 1), ih (0 + 1)]
      split <;> simp [Nat.add_assoc]

/-- A text occurs at the start of another, or after the first character. -/
theorem occurrences_cons (old : List Char) (c : Char) (s : List Char) :
    occurrences old (c :: s) =
      (if old <+: c :: s then [0] else []) ++ (occurrences old s).map (1 + ·) := by
  have hlater := occurrencesFrom_eq old s 1
  by_cases h : old <+: c :: s
  · simp [occurrences, occurrencesFrom, List.isPrefixOf_iff_prefix.mpr h, h, hlater]
  · have hno : old.isPrefixOf (c :: s) = false :=
      Bool.eq_false_iff.mpr fun hp => h (List.isPrefixOf_iff_prefix.mp hp)
    simp [occurrences, occurrencesFrom, hno, h, hlater]

theorem prefix_of_mem_occurrences (h : k ∈ occurrences old s) : old <+: s.drop k := by
  induction s generalizing k with
  | nil =>
      obtain ⟨hstarts, rfl⟩ : old = [] ∧ k = 0 := by
        simpa [occurrences, occurrencesFrom] using h
      simp [hstarts]
  | cons c s ih =>
      rw [occurrences_cons, List.mem_append] at h
      rcases h with hfirst | hlater
      · split at hfirst
        · next hstarts =>
            obtain rfl : k = 0 := by simpa using hfirst
            exact hstarts
        · cases hfirst
      · obtain ⟨j, hj, rfl⟩ := List.mem_map.mp hlater
        rw [Nat.add_comm, List.drop_succ_cons]
        exact ih hj

/-- **Where a text is found**, in bytes: wherever it occurs. -/
theorem offsets_eq (hne : old ≠ []) (s : List Char) :
    offsets (ofChars old) (ofChars s) = (occurrences old s).map fun k => byteLength (s.take k) := by
  induction s with
  | nil =>
      have hchars : ofChars old ≠ [] := fun h => hne (ofChars_eq_nil_iff.mp h)
      simp [offsets, OccursAt, hchars.symm, occurrences, occurrencesFrom, hne]
  | cons c s ih =>
      rw [offsets_ofChars_cons hne, occurrences_cons, ih, List.map_append, List.map_map,
        List.map_map]
      congr 1
      · split <;> rfl
      · refine List.map_congr_left fun k _ => ?_
        simp [Nat.add_comm 1 k]

/-- The bytes of a text with a stretch replaced. -/
theorem ofChars_replaceAt (h : k ∈ occurrences old s) (new : List Char) :
    ofChars (replaceAt s old new k) =
      (ofChars s).take (byteLength (s.take k)) ++ ofChars new ++
        (ofChars s).drop (byteLength (s.take k) + (ofChars old).length) := by
  obtain ⟨rest, hrest⟩ := prefix_of_mem_occurrences h
  have hafter : s.drop (k + old.length) = rest := by
    rw [← List.drop_drop, ← hrest, List.drop_left]
  rw [replaceAt, hafter, ofChars_append, ofChars_append, take_ofChars, ← List.drop_drop,
    drop_ofChars, ← hrest, ofChars_append, List.drop_left]

/-- The line of a position is told by the newlines before it, in bytes. -/
theorem lineAt_eq (s : List Char) (k : Nat) :
    lineAt s k = ((ofChars s).take (byteLength (s.take k))).count 0x0A + 1 := by
  rw [take_ofChars, count_ofChars]
  rfl

end Texts

/-! ### The request -/

variable {e : Editor} {desk : Desk} {place file : Path} {path t old new : String} {mode : Nat}

theorem findReplacement_eq (resolved : e.resolve desk.tree path = .ok place)
    (read : desk.tree.readText (Path.text place) = .ok t) (old new : String) :
    e.findReplacement desk.tree path old new =
      if old = "" then .error (.misuse .emptyOld)
      else if old = new then .error (.noChange path)
      else (uniqueOccurrence path old t).map fun k => (place, t, k) := by
  have hfile : e.resolveFile desk.tree path = .ok place :=
    resolveFile_eq_ok_iff.mpr ⟨resolve_eq_ok_iff.mp resolved, there_of_readText read⟩
  have hread : readFile desk.tree path place = .ok t := readFile_eq_ok_iff.mpr read
  simp only [findReplacement, hfile, hread, Attempt.ok_bind]
  split
  · rfl
  · split
    · rfl
    · cases uniqueOccurrence path old t <;> rfl

/-- The old text is found in the bytes of the file exactly where it occurs. -/
theorem offsets_ofText (hne : old ≠ "") (t : String) :
    offsets (ofText old) (ofText t) =
      (occurrences old.toList t.toList).map fun k => byteLength (t.toList.take k) := by
  rw [ofText_eq_ofChars, ofText_eq_ofChars,
    offsets_eq fun h => hne (String.toList_eq_nil_iff.mp h)]

theorem mem_offsets_ofText (hne : old ≠ "") {i : Nat} :
    i ∈ offsets (ofText old) (ofText t) ↔ OccursAt (ofText old) (ofText t) i :=
  mem_offsets fun h =>
    hne (String.toList_eq_nil_iff.mp (ofChars_eq_nil_iff.mp (ofText_eq_ofChars old ▸ h)))

section Found

variable (resolved : e.resolve desk.tree path = .ok place)
  (read : desk.tree.readText (Path.text place) = .ok t) (hne : old ≠ "") (hother : old ≠ new)

include resolved read hne hother

theorem replace_eq : e.replace desk path old new =
    match uniqueOccurrence path old t with
    | .error refusal => (.error refusal, desk)
    | .ok k => e.commit desk path place .replace t (replaceAt t.toList old.toList new.toList k)
        (lineAt t.toList k - 1) (Lines.newlines new.toList + 1) := by
  simp only [replace, findReplacement_eq resolved read, if_neg hne, if_neg hother]
  cases uniqueOccurrence path old t <;> rfl

theorem replace_of_none (hno : ∀ i, ¬ OccursAt (ofText old) (ofText t) i) :
    e.replace desk path old new = (.error (.noMatch path old), desk) := by
  have hnil : occurrences old.toList t.toList = [] := by
    have hoffsets : offsets (ofText old) (ofText t) = [] :=
      List.eq_nil_iff_forall_not_mem.mpr fun i mem => hno i ((mem_offsets_ofText hne).mp mem)
    rw [offsets_ofText hne] at hoffsets
    exact List.map_eq_nil_iff.mp hoffsets
  simp only [replace_eq resolved read hne hother, uniqueOccurrence, hnil]

/-- Where the old text occurs several times the line of each is told, in order. -/
theorem replace_of_several {i j : Nat} (hij : i ≠ j) (hi : OccursAt (ofText old) (ofText t) i)
    (hj : OccursAt (ofText old) (ofText t) j) :
    e.replace desk path old new = (.error (.ambiguous path
      ((offsets (ofText old) (ofText t)).map fun k => ((ofText t).take k).count 0x0A + 1)),
        desk) := by
  have hlines : (occurrences old.toList t.toList).map (lineAt t.toList) =
      (offsets (ofText old) (ofText t)).map fun k => ((ofText t).take k).count 0x0A + 1 := by
    rw [offsets_ofText hne, List.map_map, ofText_eq_ofChars]
    exact List.map_congr_left fun k _ => lineAt_eq t.toList k
  have hwhere : ∀ k, k ∈ offsets (ofText old) (ofText t) ↔ OccursAt (ofText old) (ofText t) k :=
    fun _ => mem_offsets_ofText hne
  rw [offsets_ofText hne] at hwhere
  rw [← hlines]
  cases hfound : occurrences old.toList t.toList with
  | nil =>
      have hnone := (hwhere i).mpr hi
      rw [hfound] at hnone
      cases hnone
  | cons k rest =>
      cases rest with
      | nil =>
          rw [hfound] at hwhere
          have hi := List.mem_singleton.mp ((hwhere i).mpr hi)
          have hj := List.mem_singleton.mp ((hwhere j).mpr hj)
          exact absurd (hi.trans hj.symm) hij
      | cons k' rest => simp only [replace_eq resolved read hne hother, uniqueOccurrence, hfound]

/-- The one stretch of the file that is the old text gives way to the new one. -/
theorem replace_of_unique (h : desk.tree.Behind place file file (.file mode (.text t)) mode t)
    (writable : ∀ s, (desk.tree.rewrite place s).1 = none) {i : Nat}
    (honly : ∀ j, OccursAt (ofText old) (ofText t) j ↔ j = i) :
    ∃ said after c, e.replace desk path old new = (.ok said, after) ∧
      Spliced desk place file .replace mode t c after ∧
      ofText c = (ofText t).take i ++ ofText new ++ (ofText t).drop (i + (ofText old).length) := by
  have hnodup : (offsets (ofText old) (ofText t)).Nodup :=
    (pairwise_offsets (ofText old) (ofText t)).imp (Nat.ne_of_lt ·)
  have hoffsets : offsets (ofText old) (ofText t) = [i] := by
    refine List.perm_singleton.mp
      ((List.perm_ext_iff_of_nodup hnodup (List.nodup_singleton i)).mpr fun k => ?_)
    rw [mem_offsets_ofText hne, honly k, List.mem_singleton]
  rw [offsets_ofText hne] at hoffsets
  obtain ⟨k, hk, rfl⟩ := List.map_eq_singleton_iff.mp hoffsets
  have hreplace : e.replace desk path old new =
      e.commit desk path place .replace t (replaceAt t.toList old.toList new.toList k)
        (lineAt t.toList k - 1) (Lines.newlines new.toList + 1) := by
    simp only [replace_eq resolved read hne hother, uniqueOccurrence, hk]
  obtain ⟨after, hcommit, hspliced⟩ := commit_spliced e path .replace h (writable _)
    (lineAt t.toList k - 1) (Lines.newlines new.toList + 1)
  refine ⟨_, after, _, hreplace.trans hcommit, hspliced, ?_⟩
  rw [ofText_eq_ofChars, String.toList_ofList, ofChars_replaceAt (by simp [hk]),
    ofText_eq_ofChars, ofText_eq_ofChars, ofText_eq_ofChars]

end Found

/-- **What a replacement does.** The path leads to a file with a text, the last name of it is
no link, and the file can be written. Replacing succeeds exactly when the old text is not
empty, the new one is another, and the old one occurs at one position, in bytes, counting
those that overlap; then these bytes are replaced. Where it does not occur that is told, and
where it occurs several times the line of each is, in order; then all is as before. -/
theorem replace_unique_occurrence (wellFormed : desk.tree.WellFormed)
    (root : Path.Plain e.project.root) (resolved : e.resolve desk.tree path = .ok place)
    (regular : desk.tree.find false (Path.text place) = .ok ⟨file, some (.file mode (.text t))⟩)
    (writable : ∀ s, (desk.tree.rewrite place s).1 = none) (old new : String) :
    ((∃ said, (e.replace desk path old new).1 = .ok said) ↔
      old ≠ "" ∧ old ≠ new ∧ ∃! i, OccursAt (ofText old) (ofText t) i) ∧
    (old = "" → e.replace desk path old new = (.error (.misuse .emptyOld), desk)) ∧
    (old ≠ "" → old = new → e.replace desk path old new = (.error (.noChange path), desk)) ∧
    (old ≠ "" → old ≠ new → (∀ i, ¬ OccursAt (ofText old) (ofText t) i) →
      e.replace desk path old new = (.error (.noMatch path old), desk)) ∧
    (old ≠ "" → old ≠ new → ∀ i, (∀ j, OccursAt (ofText old) (ofText t) j ↔ j = i) →
      ∃ c, Spliced desk place file .replace mode t c (e.replace desk path old new).2 ∧
        ofText c = (ofText t).take i ++ ofText new ++
          (ofText t).drop (i + (ofText old).length)) ∧
    (old ≠ "" → old ≠ new →
      ∀ i j, i ≠ j → OccursAt (ofText old) (ofText t) i → OccursAt (ofText old) (ofText t) j →
      ∃ found : List Nat, found.Pairwise (· < ·) ∧
        (∀ k, k ∈ found ↔ OccursAt (ofText old) (ofText t) k) ∧
        e.replace desk path old new = (.error (.ambiguous path
          (found.map fun k => ((ofText t).take k).count 0x0A + 1)), desk)) := by
  obtain ⟨real, up, hr⟩ := Project.resolve_eq_ok_iff.mp (resolve_eq_ok_iff.mp resolved)
  have behind := behind_of_find wellFormed (hr.plain root) regular
  have read : desk.tree.readText (Path.text place) = .ok t :=
    readText_eq_ok_iff.mpr ⟨file, mode, behind.leads⟩
  have hempty (h : old = "") :
      e.replace desk path old new = (.error (.misuse .emptyOld), desk) := by
    simp only [replace, findReplacement_eq resolved read, if_pos h]
  have hsame (hne : old ≠ "") (h : old = new) :
      e.replace desk path old new = (.error (.noChange path), desk) := by
    simp only [replace, findReplacement_eq resolved read, if_neg hne, if_pos h]
  have hno (hne : old ≠ "") (hother : old ≠ new) := replace_of_none resolved read hne hother
  have hone (hne : old ≠ "") (hother : old ≠ new) (i : Nat) :=
    replace_of_unique resolved read hne hother (i := i) behind writable
  have hmany (hne : old ≠ "") (hother : old ≠ new) (i j : Nat) :=
    replace_of_several resolved read hne hother (i := i) (j := j)
  refine ⟨⟨?_, ?_⟩, hempty, hsame, hno, ?_, ?_⟩
  · rintro ⟨said, hsaid⟩
    have hne : old ≠ "" := fun h => by simp [hempty h] at hsaid
    have hother : old ≠ new := fun h => by simp [hsame hne h] at hsaid
    obtain ⟨i, hi⟩ : ∃ i, OccursAt (ofText old) (ofText t) i :=
      not_forall_not.mp fun h => by simp [hno hne hother h] at hsaid
    refine ⟨hne, hother, i, hi, fun j hj => ?_⟩
    exact not_not.mp fun hij => by simp [hmany hne hother j i hij hj hi] at hsaid
  · rintro ⟨hne, hother, i, hi, hall⟩
    obtain ⟨said, after, c, hdone, -⟩ :=
      hone hne hother i fun j => ⟨hall j, fun h => h ▸ hi⟩
    exact ⟨said, by rw [hdone]⟩
  · intro hne hother i honly
    obtain ⟨said, after, c, hdone, hspliced, hbytes⟩ := hone hne hother i honly
    exact ⟨c, by rwa [hdone], hbytes⟩
  · intro hne hother i j hij hi hj
    exact ⟨offsets (ofText old) (ofText t), pairwise_offsets _ _,
      fun k => mem_offsets_ofText hne, hmany hne hother i j hij hi hj⟩

theorem replace_unique_occurrence_draftDesk :
    draftDesk.tree.WellFormed ∧ Path.Plain sampleEditor.project.root ∧
    sampleEditor.resolve draftDesk.tree "a" = .ok ["p", "a"] ∧
    draftDesk.tree.find false (Path.text ["p", "a"]) =
      .ok ⟨["p", "a"], some (.file 0o600 (.text "één\ntwee"))⟩ ∧
    (∀ s, (draftDesk.tree.rewrite ["p", "a"] s).1 = none) ∧ "én" ≠ "" ∧ "én" ≠ "ü" ∧
    (∀ j, OccursAt (ofText "én") (ofText "één\ntwee") j ↔ j = 2) ∧
    ∃ c, Spliced draftDesk ["p", "a"] ["p", "a"] .replace 0o600 "één\ntwee" c
        (sampleEditor.replace draftDesk "a" "én" "ü").2 ∧
      ofText c = (ofText "één\ntwee").take 2 ++ ofText "ü" ++
        (ofText "één\ntwee").drop (2 + (ofText "én").length) := by
  have hwf : draftDesk.tree.WellFormed := by decide
  have hroot : Path.Plain sampleEditor.project.root := by decide
  have hres : sampleEditor.resolve draftDesk.tree "a" = .ok ["p", "a"] := by decide +kernel
  have hfind : draftDesk.tree.find false (Path.text ["p", "a"]) =
      .ok ⟨["p", "a"], some (.file 0o600 (.text "één\ntwee"))⟩ := by decide +kernel
  have hone (j : Nat) : OccursAt (ofText "én") (ofText "één\ntwee") j ↔ j = 2 := by
    have hoffsets : offsets (ofText "én") (ofText "één\ntwee") = [2] := by
      rw [offsets_ofText (by decide)]
      decide
    rw [← mem_offsets_ofText (by decide), hoffsets, List.mem_singleton]
  obtain ⟨-, -, -, -, hdone, -⟩ :=
    replace_unique_occurrence hwf hroot hres hfind writable_draftDesk "én" "ü"
  exact ⟨hwf, hroot, hres, hfind, writable_draftDesk, by decide, by decide, hone,
    hdone (by decide) (by decide) 2 hone⟩

end Workbench.Editor
