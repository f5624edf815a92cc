/-
# What a digest tells apart

The digest in the name of a collection is taken of all paths and contents, each ended by a
zero. All that can be read back from these bytes is what stands between two zeros
(`between`). So listings without a zero in their texts are told apart, while a content that
holds zeros can be taken for that of several sources.

* `framed_eq_iff` — **which listings give the same bytes**.
* `CodebaseIndex.content_seen` — which changes of a project lead to another collection.
* `CodebaseIndex.content_unseen` — two sources, and one that is taken for them.
-/

import Workbench.Proofs.Index.Building
import Workbench.Proofs.Text.Bytewise

namespace Workbench

open Workbench.Files Workbench.Files.Tree Workbench.Text Workbench.Digest Workbench.Index

namespace Index

variable {tree : Tree} {files : List Source} {old new : List (String × String)}

/-! ### Listings as bytes -/

/-- The paths and contents of sources. -/
def listing (tree : Tree) (files : List Source) : Except BuildFault (List (String × String)) :=
  files.mapM fun s => do return (s.path, ← s.read tree)

/-- The first digits of the digest of a message. -/
def shortDigest (message : Octets) : String :=
  String.ofList ((Octets.toHex (Sha256.digest message)).toList.take digestLength)

theorem digest_eq (tree : Tree) (files : List Source) :
    digest tree files = (listing tree files).map fun l => shortDigest (framed l) := by
  unfold digest listing shortDigest
  cases files.mapM fun s => do return (s.path, ← s.read tree) with
  | error fault => rfl
  | ok l => rfl

/-- Paths and contents, each with a zero after it. -/
def stream (listing : List (String × String)) : List Char :=
  listing.flatMap fun (path, content) => path.toList ++ '\x00' :: (content.toList ++ ['\x00'])

/-- What stands between two zeros: a path or a content, or a part of one that holds zeros. -/
def between (listing : List (String × String)) : List (List Char) :=
  listing.flatMap fun (path, content) =>
    path.toList.splitOn '\x00' ++ content.toList.splitOn '\x00'

theorem framed_eq (listing : List (String × String)) :
    framed listing = Octets.ofText (String.ofList (stream listing)) := by
  have hzero : String.utf8EncodeChar '\x00' = [0] := by decide
  rw [Octets.ofText_eq, String.toList_ofList, stream, List.flatMap_assoc, framed]
  congr 1
  funext entry
  simp [Octets.ofText_eq, hzero]

theorem splitOn_stream (listing : List (String × String)) :
    (stream listing).splitOn '\x00' = between listing ++ [[]] := by
  induction listing with
  | nil => rfl
  | cons entry rest ih =>
      obtain ⟨path, content⟩ := entry
      have hstream : stream ((path, content) :: rest) =
          path.toList ++ '\x00' :: (content.toList ++ '\x00' :: stream rest) := by
        simp [stream]
      rw [hstream, List.splitOn_append_cons_self, List.splitOn_append_cons_self, ih]
      simp [between]

/-- **Which listings give the same bytes**: those in which the same stands between zeros. -/
theorem framed_eq_iff : framed old = framed new ↔ between old = between new := by
  rw [framed_eq, framed_eq]
  constructor
  · intro h
    have hstream : stream old = stream new := String.ofList_injective (Octets.ofText_injective h)
    have hsplit := congrArg (List.splitOn '\x00') hstream
    rw [splitOn_stream, splitOn_stream] at hsplit
    exact List.append_cancel_right hsplit
  · intro h
    have hback (l : List (String × String)) :
        ['\x00'].intercalate (between l ++ [[]]) = stream l := by
      rw [← splitOn_stream, List.intercalate_splitOn]
    rw [← hback old, h, hback new]

/-! ### Changes that are seen -/

/-- No path and no content of a listing holds a zero. -/
def ZeroFree (listing : List (String × String)) : Prop :=
  ∀ entry ∈ listing, '\x00' ∉ entry.1.toList ∧ '\x00' ∉ entry.2.toList

instance (listing : List (String × String)) : Decidable (ZeroFree listing) :=
  inferInstanceAs (Decidable (∀ entry ∈ listing, _))

theorem between_cons_of_zeroFree {path content : String} {rest : List (String × String)}
    (h : ZeroFree ((path, content) :: rest)) :
    between ((path, content) :: rest) = path.toList :: content.toList :: between rest := by
  obtain ⟨hpath, hcontent⟩ := h _ (.head _)
  simp [between, List.splitOn_eq_singleton hpath, List.splitOn_eq_singleton hcontent]

/-- Without zeros, paths and contents come back from what stands between them. -/
theorem between_injective (hold : ZeroFree old) (hnew : ZeroFree new)
    (h : between old = between new) : old = new := by
  induction old generalizing new with
  | nil =>
      cases new with
      | nil => rfl
      | cons entry rest =>
          rw [between_cons_of_zeroFree hnew] at h
          cases h
  | cons entry rest ih =>
      cases new with
      | nil =>
          rw [between_cons_of_zeroFree hold] at h
          cases h
      | cons entry' rest' =>
          rw [between_cons_of_zeroFree hold, between_cons_of_zeroFree hnew] at h
          obtain ⟨hpath, hmore⟩ := List.cons.inj h
          obtain ⟨hcontent, hrest⟩ := List.cons.inj hmore
          have hsame : rest = rest' := ih (fun e mem => hold e (.tail _ mem))
            (fun e mem => hnew e (.tail _ mem)) hrest
          exact congrArg₂ _ (Prod.ext (String.toList_inj.mp hpath) (String.toList_inj.mp hcontent))
            hsame

/-- A source that is added or taken away changes the bytes, whatever it holds. -/
theorem eq_of_sublist (hsub : old.Sublist new) (h : framed old = framed new) : old = new := by
  induction hsub with
  | slnil => rfl
  | @cons shorter longer entry hsub _ =>
      -- The longer listing has more bytes.
      have hle : (framed shorter).length ≤ (framed longer).length := (hsub.flatMap _).length_le
      have hlength := congrArg List.length h
      simp [framed] at hlength hle
      omega
  | cons_cons entry _ ih =>
      exact congrArg _ (ih (List.append_cancel_left h))

/-- A source with another content changes the bytes, whatever the contents hold. -/
theorem eq_of_framed_eq {above below : List (String × String)} {path content content' : String}
    (h : framed (above ++ (path, content) :: below) = framed (above ++ (path, content') :: below)) :
    content = content' := by
  apply Octets.ofText_injective
  simpa [framed] using h

/-! ### Collections of other contents -/

theorem location_injective {runtimeDir collection d d' : String} {root : Path}
    (h : location runtimeDir root collection (some d) =
      location runtimeDir root collection (some d')) : d = d' := by
  have hbase : keyName root collection ++ "_" ≠ "" := by simp
  have hstart : (keyName root collection ++ "_" ++ d).startsWith "/" =
      (keyName root collection ++ "_" ++ d').startsWith "/" :=
    (Path.isAbsolute_append hbase d).trans (Path.isAbsolute_append hbase d').symm
  unfold location Path.below at h
  simp only [hstart] at h
  split at h
  · exact (String.append_right_inj _).mp h
  · split at h
    · exact (String.append_right_inj _).mp ((String.append_right_inj _).mp h)
    · exact (String.append_right_inj _).mp ((String.append_right_inj _).mp h)

namespace CodebaseIndex

variable {σ : Type} {ix : CodebaseIndex σ}

/-- With a digest in its name, a collection lies where the contents say. -/
theorem persistDir_keyed (hkey : ix.settings.contentHashKey = true) {project : String} {root : Path}
    (hroot : projectRoot tree project = .ok root) {l : List (String × String)}
    (hlisting : listing tree (sources ix.languages tree root) = .ok l) (collection : String) :
    ix.persistDir tree project collection =
      .ok (location ix.runtimeDir root collection (some (shortDigest (framed l)))) := by
  have hdigest : digest tree (sources ix.languages tree root) = .ok (shortDigest (framed l)) := by
    rw [digest_eq, hlisting]
    rfl
  simp only [persistDir, locate, hroot, hkey, hdigest, if_true, Attempt.ok_bind, Attempt.pure_eq]

/-- **Which changes are seen.** Two listings give the same bytes exactly when the same stands
between the zeros of both: so they are told apart if no text in them holds a zero, if sources
were only added to one of them, and if one source has another content. With the digest in its
name, and unless two digests collide, a collection lies elsewhere exactly when other bytes
are digested. -/
theorem content_seen (ix : CodebaseIndex σ) (old new : List (String × String)) :
    (framed old = framed new ↔ between old = between new) ∧
    (ZeroFree old → ZeroFree new → framed old = framed new → old = new) ∧
    (old.Sublist new → framed old = framed new → old = new) ∧
    (∀ above below path content content', old = above ++ (path, content) :: below →
      new = above ++ (path, content') :: below → framed old = framed new → old = new) ∧
    (∀ before after project collection root, ix.settings.contentHashKey = true →
      projectRoot before project = .ok root → projectRoot after project = .ok root →
      listing before (sources ix.languages before root) = .ok old →
      listing after (sources ix.languages after root) = .ok new →
      (shortDigest (framed old) = shortDigest (framed new) → framed old = framed new) →
      (ix.persistDir before project collection = ix.persistDir after project collection ↔
        between old = between new)) := by
  refine ⟨framed_eq_iff, ?_, eq_of_sublist, ?_, ?_⟩
  · intro hold hnew h
    exact between_injective hold hnew (framed_eq_iff.mp h)
  · rintro above below path content content' rfl rfl h
    rw [eq_of_framed_eq h]
  · intro before after project collection root hkey hbefore hafter hold hnew hcollision
    rw [persistDir_keyed hkey hbefore hold, persistDir_keyed hkey hafter hnew, ← framed_eq_iff]
    constructor
    · intro h
      exact hcollision (location_injective (Except.ok.inj h))
    · intro h
      rw [h]

/-! ### Samples -/

/-- The sample index, with a digest in the names of its collections. -/
def keyedIndex : CodebaseIndex Unit :=
  { sampleIndex with settings := { contentHashKey := true } }

/-- A project with one source, which holds what follows it in the bytes of `sourceTree`. -/
def gluedTree : Tree :=
  ⟨[(["p"], .directory 0o755), (["p", "a.py"], .file 0o644 (.text "x\n\x00b.py\x00y\n"))], []⟩

/-- A project with one source. -/
def singleTree : Tree :=
  ⟨[(["p"], .directory 0o755), (["p", "a.py"], .file 0o644 (.text "x\n"))], []⟩

theorem listing_sourceTree :
    listing sourceTree (sources keyedIndex.languages sourceTree ["p"]) =
      .ok [("a.py", "x\n"), ("b.py", "y\n")] := by
  have hlanguages : keyedIndex.languages = sampleIndex.languages := rfl
  rw [hlanguages, sources_sourceTree]
  decide +kernel

theorem listing_gluedTree :
    listing gluedTree (sources keyedIndex.languages gluedTree ["p"]) =
      .ok [("a.py", "x\n\x00b.py\x00y\n")] := by
  have hsources : sources keyedIndex.languages gluedTree ["p"] = [⟨["p", "a.py"], "a.py", "py"⟩] :=
    sources_eq_singleton (by cbv)
  rw [hsources]
  decide +kernel

theorem listing_singleTree :
    listing singleTree (sources keyedIndex.languages singleTree ["p"]) = .ok [("a.py", "x\n")] := by
  have hsources : sources keyedIndex.languages singleTree ["p"] = [⟨["p", "a.py"], "a.py", "py"⟩] :=
    sources_eq_singleton (by cbv)
  rw [hsources]
  decide +kernel

theorem content_seen_singleTree :
    keyedIndex.persistDir singleTree "/p" "x" ≠ keyedIndex.persistDir sourceTree "/p" "x" := by
  obtain ⟨hbytes, hfree, -, -, hplace⟩ :=
    content_seen keyedIndex [("a.py", "x\n")] [("a.py", "x\n"), ("b.py", "y\n")]
  intro h
  have hbetween := (hplace singleTree sourceTree "/p" "x" ["p"] rfl (by decide +kernel)
    (by decide +kernel) listing_singleTree listing_sourceTree
    (fun hdigest => absurd hdigest (by decide +kernel))).mp h
  have hsame := hfree (by decide) (by decide) (hbytes.mpr hbetween)
  cases hsame

/-- **A change that is not seen**: the digest of one source is that of two, as its content holds
the path and the content of the second between zeros, and both projects have their collection
at one place. -/
theorem content_unseen :
    (∀ l ∈ [[("a.py", "x\n\x00b.py\x00y\n")], [("a.py", "x\n"), ("b.py", "y\n")]],
      l.Pairwise (fun s t => s.1 < t.1) ∧ ∀ s ∈ l, s.1 ≠ "" ∧ '\x00' ∉ s.1.toList) ∧
    [("a.py", "x\n\x00b.py\x00y\n")] ≠ [("a.py", "x\n"), ("b.py", "y\n")] ∧
    framed [("a.py", "x\n\x00b.py\x00y\n")] = framed [("a.py", "x\n"), ("b.py", "y\n")] ∧
    listing gluedTree (sources keyedIndex.languages gluedTree ["p"]) =
      .ok [("a.py", "x\n\x00b.py\x00y\n")] ∧
    listing sourceTree (sources keyedIndex.languages sourceTree ["p"]) =
      .ok [("a.py", "x\n"), ("b.py", "y\n")] ∧
    keyedIndex.persistDir gluedTree "/p" "x" = keyedIndex.persistDir sourceTree "/p" "x" := by
  have hframed : framed [("a.py", "x\n\x00b.py\x00y\n")] =
      framed [("a.py", "x\n"), ("b.py", "y\n")] := framed_eq_iff.mpr (by decide +kernel)
  refine ⟨by decide +kernel, by decide, hframed, listing_gluedTree, listing_sourceTree, ?_⟩
  rw [persistDir_keyed rfl (by decide +kernel) listing_gluedTree,
    persistDir_keyed rfl (by decide +kernel) listing_sourceTree, hframed]

end CodebaseIndex

end Index

end Workbench
