/-
# What requests read

Before a request changes anything it resolves its path and looks at what is there. What
it goes on with tells what it found: where the path leads, and which text a file holds.
-/

import Workbench.Editor.Basic
import Workbench.Proofs.Attempt
import Workbench.Proofs.Files.Rewriting

namespace Workbench.Editor

open Workbench.Files Workbench.Files.Tree

variable {e : Editor} {tree : Tree} {place : Path} {path text content : String}

theorem resolve_eq_ok_iff :
    e.resolve tree path = .ok place ↔ e.project.resolve tree path = .ok place :=
  Attempt.mapError_eq_ok_iff

theorem resolveThere_eq_ok_iff :
    e.resolveThere tree path = .ok place ↔
      e.project.resolve tree path = .ok place ∧ tree.isThere (Path.text place) = true := by
  simp only [resolveThere, Attempt.bind_eq_ok_iff, resolve_eq_ok_iff]
  constructor
  · rintro ⟨found, hres, h⟩
    split at h
    · next hthere =>
        obtain rfl : found = place := by simpa using h
        exact ⟨hres, hthere⟩
    · simp at h
  · rintro ⟨hres, hthere⟩
    exact ⟨place, hres, by simp [hthere]⟩

theorem resolveFile_eq_ok_iff :
    e.resolveFile tree path = .ok place ↔
      e.project.resolve tree path = .ok place ∧ tree.isThere (Path.text place) = true ∧
        tree.isDirectory (Path.text place) = false := by
  simp only [resolveFile, Attempt.bind_eq_ok_iff, resolveThere_eq_ok_iff]
  constructor
  · rintro ⟨found, ⟨hres, hthere⟩, h⟩
    split at h
    · simp at h
    · next hdir =>
        obtain rfl : found = place := by simpa using h
        exact ⟨hres, hthere, by simpa using hdir⟩
  · rintro ⟨hres, hthere, hdir⟩
    exact ⟨place, ⟨hres, hthere⟩, by simp [hdir]⟩


theorem readFile_eq_ok_iff :
    readFile tree path place = .ok content ↔ tree.readText (Path.text place) = .ok content :=
  Attempt.mapError_eq_ok_iff

/-- A replacement is made in a text that was read where the path leads. -/
theorem findReplacement_ok {old new : String} {position : Nat}
    (h : e.findReplacement tree path old new = .ok (place, content, position)) :
    e.project.resolve tree path = .ok place ∧
      tree.readText (Path.text place) = .ok content := by
  simp only [findReplacement, Attempt.bind_eq_ok_iff, resolveFile_eq_ok_iff] at h
  obtain ⟨found, ⟨hres, -⟩, h⟩ := h
  split at h
  · simp at h
  · split at h
    · simp at h
    · simp only [Attempt.bind_eq_ok_iff, readFile_eq_ok_iff] at h
      obtain ⟨read, hread, _, -, h⟩ := h
      obtain ⟨rfl, rfl, -⟩ : found = place ∧ read = content ∧ _ := by simpa using h
      exact ⟨hres, hread⟩

/-- An insertion is made in a text that was read where the path leads. -/
theorem findInsertion_ok {line : Int} {after : Nat}
    (h : e.findInsertion tree path line = .ok (place, content, after)) :
    e.project.resolve tree path = .ok place ∧
      tree.readText (Path.text place) = .ok content := by
  simp only [findInsertion, Attempt.bind_eq_ok_iff, resolveFile_eq_ok_iff,
    readFile_eq_ok_iff] at h
  obtain ⟨found, ⟨hres, -⟩, read, hread, h⟩ := h
  split at h
  · simp at h
  · obtain ⟨rfl, rfl, -⟩ : found = place ∧ read = content ∧ _ := by simpa using h
    exact ⟨hres, hread⟩

end Workbench.Editor
