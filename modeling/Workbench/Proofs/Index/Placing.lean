/-
# Where collections are placed

A collection, the directory in which it is built and the databases in both are named
side by side: one list of names leads to the directory of them all (`Placed`).

* `exists_placed` — **every location is one beside which there is a place to build.**
-/

import Workbench.Index.Codebase
import Workbench.Proofs.Attempt
import Workbench.Proofs.Files.Written

namespace Workbench

open Workbench.Files Workbench.Files.Tree Workbench.Collection Workbench.Text Workbench.Index
  Workbench.Digest

/-! ### Digests -/

theorem Text.Octets.isHexDigit_hexDigit : ∀ n < 16, isHexDigit (Octets.hexDigit n) = true := by
  decide

theorem Text.Octets.all_toHex (bytes : Octets) :
    ∀ c ∈ (Octets.toHex bytes).toList, isHexDigit c = true := by
  have hdigit (b : UInt8) : b.toNat / 16 < 16 ∧ b.toNat % 16 < 16 := by
    have := b.toNat_lt
    omega
  rw [Octets.toHex, String.toList_ofList]
  intro c mem
  obtain ⟨b, -, mem⟩ := List.mem_flatMap.mp mem
  rcases List.mem_pair.mp mem with rfl | rfl
  · exact Octets.isHexDigit_hexDigit _ (hdigit b).1
  · exact Octets.isHexDigit_hexDigit _ (hdigit b).2

theorem Text.Octets.length_toHex (bytes : Octets) :
    (Octets.toHex bytes).toList.length = 2 * bytes.length := by
  rw [Octets.toHex, String.toList_ofList]
  induction bytes with
  | nil => rfl
  | cons b rest ih =>
      rw [List.flatMap_cons, List.length_append, ih, List.length_cons]
      simp only [List.length_cons, List.length_nil]
      omega

theorem Digest.Sha256.length_digest (message : Octets) : (Sha256.digest message).length = 32 := by
  simp [Sha256.digest, bytesOf]

/-- What the digest in a name looks like. -/
def Index.IsDigest (d : String) : Prop :=
  d.toList.length = digestLength ∧ ∀ c ∈ d.toList, isHexDigit c = true

theorem Index.IsDigest.not_mem {d : String} (h : IsDigest d) {c : Char} (hc : isHexDigit c = false) :
    c ∉ d.toList := by
  intro mem
  simp [h.2 c mem] at hc

theorem Index.isDigest_of_digest {tree : Tree} {files : List Source} {d : String}
    (h : digest tree files = .ok d) : IsDigest d := by
  obtain ⟨listing, -, hlisting⟩ := Attempt.bind_eq_ok_iff.mp h
  obtain rfl : _ = d := by simpa using hlisting
  rw [IsDigest, String.toList_ofList]
  constructor
  · rw [List.length_take, Octets.length_toHex, Sha256.length_digest]
    rfl
  · exact fun c mem => Octets.all_toHex _ c (List.mem_of_mem_take mem)

/-! ### Names and paths -/

/-- A name below a path ends the path that comes of it. -/
theorem Files.Path.exists_below (base name tail : String) :
    ∃ text, Path.below base (name ++ tail) = text ++ tail := by
  unfold Path.below
  split
  · exact ⟨name, rfl⟩
  · split
    · exact ⟨base ++ name, String.append_assoc.symm⟩
    · exact ⟨base ++ "/" ++ name, String.append_assoc.symm⟩

namespace Index

variable {σ : Type} {ix : CodebaseIndex σ} {tree : Tree} {root : Path}
  {collection text tail location : String} {dir : List String} {name : String}

/-- A collection lies where a list of names and another name lead, and what belongs to its
build lies beside it. -/
structure Placed (location : String) (dir : List String) (name : String) : Prop where
  named : Path.Named dir
  isName : Path.IsName name
  isStagingName : Path.IsName (name ++ stagingMark)
  steps : Path.steps location = dir ++ [name]
  steps_staging : Path.steps (staging location) = dir ++ [name ++ stagingMark]
  steps_file : Path.steps (Store.file location) = dir ++ [name, "index.db"]
  steps_stagingFile :
    Path.steps (Store.file (staging location)) = dir ++ [name ++ stagingMark, "index.db"]
  absolute : ∀ other, other = staging location ∨ other = Store.file location ∨
    other = Store.file (staging location) → Path.isAbsolute other = Path.isAbsolute location
  given : Path.Given (Store.file (staging location)) → Path.Given (Store.file location)

namespace Placed

theorem ne_empty (h : Placed location dir name) : location ≠ "" := by
  rintro rfl
  have hsteps := h.steps
  simp [show Path.steps "" = [] from by decide] at hsteps

/-- What belongs to a build starts where the location does. -/
theorem start_eq (h : Placed location dir name) (tree : Tree) {other : String}
    (hother : other = staging location ∨ other = Store.file location ∨
      other = Store.file (staging location)) : tree.start other = tree.start location := by
  rw [start, start, h.absolute other hother]

theorem named_start (h : Placed location dir name) (hwf : tree.WellFormed)
    (hopen : tree.HasDirectory (tree.start location)) :
    Path.Named (tree.start location ++ dir.filter (· != ".")) := by
  obtain ⟨mode, hmode⟩ := hasDirectory_iff.mp hopen
  intro step mem
  rcases List.mem_append.mp mem with mem | mem
  · exact (hwf.plain hmode).named step mem
  · exact h.named step (List.mem_filter.mp mem).1

/-- The directory to build in is a plain place if no `..` is on the way. -/
theorem plain (h : Placed location dir name) (hwf : tree.WellFormed)
    (hopen : tree.HasDirectory (tree.start location)) (hup : ".." ∉ Path.steps location) :
    Path.Plain (tree.start location ++ dir.filter (· != ".") ++ [name ++ stagingMark]) := by
  obtain ⟨mode, hmode⟩ := hasDirectory_iff.mp hopen
  refine Path.plain_append.mpr ⟨Path.plain_append.mpr ⟨hwf.plain hmode, fun step mem => ?_⟩,
    Path.plain_singleton.mpr h.isStagingName⟩
  obtain ⟨hmem, hdot⟩ := List.mem_filter.mp mem
  obtain ⟨hne, hslash⟩ := h.named step hmem
  refine ⟨hne, by simpa using hdot, ?_, hslash⟩
  rintro rfl
  exact hup (h.steps ▸ List.mem_append_left _ hmem)

theorem plain_stagingFile (h : Placed location dir name) :
    Path.Plain [name ++ stagingMark, "index.db"] := by
  intro step mem
  rcases List.mem_pair.mp mem with rfl | rfl
  · exact h.isStagingName
  · decide

end Placed

theorem ne_staging (name : String) : name ≠ name ++ stagingMark := by
  intro h
  have := congrArg String.length h
  simp [stagingMark] at this

theorem entering_file : Entering "index.db" :=
  ⟨by decide, by decide, by decide⟩

/-- What holds an underscore and no slash is a name. -/
theorem isName_of_mark {last : String} (hmark : '_' ∈ last.toList) (hslash : '/' ∉ last.toList) :
    Path.IsName last := by
  refine ⟨?_, ?_, ?_, hslash⟩
  · rintro rfl
    simp at hmark
  · rintro rfl
    simp at hmark
  · rintro rfl
    simp at hmark

/-- A text is a location if it ends in part of a name. -/
theorem placed_of_tail (htail : '/' ∉ tail.toList) (hmark : '_' ∈ tail.toList) :
    ∃ dir name, Placed (text ++ tail) dir name := by
  obtain ⟨dir, name, hstem⟩ := Path.exists_stem text
  have hne : tail ≠ "" := by
    rintro rfl
    simp at hmark
  have hlong : '/' ∉ (tail ++ stagingMark).toList := by
    simp [htail, stagingMark]
  have hfile : Store.file (text ++ tail) = text ++ tail ++ "/" ++ "index.db" :=
    Path.below_append text htail hne (by decide)
  have hstagingFile : Store.file (staging (text ++ tail)) =
      text ++ (tail ++ stagingMark) ++ "/" ++ "index.db" := by
    rw [← Path.below_append text hlong (by simp [stagingMark]) (by decide), ← String.append_assoc]
    rfl
  refine ⟨dir, name ++ tail, hstem.named, ?_, ?_, ?_, ?_, ?_, ?_, ?_, ?_⟩
  · exact isName_of_mark (by simp [hmark]) (by simp [hstem.isName, htail])
  · exact isName_of_mark (by simp [hmark]) (by simp [hstem.isName, htail, stagingMark])
  · exact hstem.steps tail htail (by simp [hne])
  · have := hstem.steps (tail ++ stagingMark) hlong (by simp [stagingMark])
    rw [← String.append_assoc, ← String.append_assoc] at this
    exact this
  · rw [hfile]
    exact hstem.below tail "index.db" htail (by simp [hne]) (by decide) (by decide)
  · have hmarked := hstem.below (tail ++ stagingMark) "index.db" hlong (by simp [stagingMark])
      (by decide) (by decide)
    rw [hstagingFile, hmarked, String.append_assoc]
  · have hall : text ++ tail ≠ "" := by simp [hne]
    rintro other (rfl | rfl | rfl)
    · exact Path.isAbsolute_append hall _
    · have := Path.isAbsolute_append hall ("/" ++ "index.db")
      rwa [← String.append_assoc, ← hfile] at this
    · have := Path.isAbsolute_append hall (stagingMark ++ "/" ++ "index.db")
      rw [hstagingFile, ← this]
      simp only [String.append_assoc]
  · rw [hfile, hstagingFile]
    rintro ⟨hzero, -, hsize⟩
    refine ⟨fun mem => hzero ?_, by simp, ?_⟩
    · simp only [String.toList_append, List.mem_append] at mem ⊢
      tauto
    · simp only [String.utf8ByteSize_append] at hsize ⊢
      omega

/-- Where a collection lies is made from its name, and the sources are all that was looked
at for that. -/
theorem locate_eq_ok {scanned : Option (List Source)}
    (h : ix.locate tree root collection = .ok (location, scanned)) :
    scanned.getD (sources ix.languages tree root) = sources ix.languages tree root ∧
      ∃ d : Option String, (∀ s ∈ d, IsDigest s) ∧
        Index.location ix.runtimeDir root collection d = location := by
  unfold CodebaseIndex.locate at h
  split at h
  · cases hdigest : digest tree (sources ix.languages tree root) with
    | error fault => simp [hdigest] at h
    | ok d =>
        obtain ⟨rfl, rfl⟩ : _ = location ∧ _ = scanned := by simpa [hdigest] using h
        refine ⟨rfl, some d, ?_, rfl⟩
        rintro _ ⟨⟩
        exact isDigest_of_digest hdigest
  · obtain ⟨rfl, rfl⟩ : _ = location ∧ _ = scanned := by simpa using h
    exact ⟨rfl, none, by simp, rfl⟩

/-- Where a collection lies of which the name does not depend on the sources. -/
theorem locate_eq_of_unkeyed (h : ix.settings.contentHashKey = false) (tree : Tree) (root : Path)
    (collection : String) :
    ix.locate tree root collection =
      .ok (Index.location ix.runtimeDir root collection none, none) := by
  simp [CodebaseIndex.locate, h]

theorem not_mem_nameOf (hroot : Path.Plain root) : '/' ∉ (Project.nameOf root).toList := by
  unfold Project.nameOf
  cases hlast : root.getLast? with
  | none => decide
  | some name => exact (hroot name (List.mem_of_getLast? hlast)).2.2.2

/-- **Every location is placed.** -/
theorem exists_placed (hroot : Path.Plain root) {d : Option String}
    (hdigest : ∀ s ∈ d, IsDigest s) (runtimeDir collection : String) :
    ∃ dir name, Placed (Index.location runtimeDir root collection d) dir name := by
  have hname := not_mem_nameOf hroot
  -- Whatever the collection is called, its location ends in the name of the project.
  obtain ⟨tail, htail, hmark, hkey⟩ : ∃ tail : String, '/' ∉ tail.toList ∧ '_' ∈ tail.toList ∧
      Index.location runtimeDir root collection d = Path.below runtimeDir (collection ++ tail) := by
    cases d with
    | none =>
        refine ⟨"_" ++ Project.nameOf root, by simpa using hname, by simp, ?_⟩
        simp [Index.location, keyName, String.append_assoc]
    | some d =>
        refine ⟨"_" ++ Project.nameOf root ++ "_" ++ d, ?_, by simp, ?_⟩
        · simpa using ⟨hname, (hdigest d rfl).not_mem (by decide)⟩
        · simp [Index.location, keyName, String.append_assoc]
  obtain ⟨text, htext⟩ := Path.exists_below runtimeDir collection tail
  rw [hkey, htext]
  exact placed_of_tail htail hmark

theorem exists_placed_of_locate {scanned : Option (List Source)} (hroot : Path.Plain root)
    (h : ix.locate tree root collection = .ok (location, scanned)) :
    ∃ dir name, Placed location dir name := by
  obtain ⟨-, d, hdigest, rfl⟩ := locate_eq_ok h
  exact exists_placed hroot hdigest ix.runtimeDir collection

end Index

end Workbench
