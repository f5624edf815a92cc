/-
# Chains of directories

When the first missing directory of a path can be made, making the directories of the path
makes it and the ones in it, one in the other, until a name is too long; nothing else can
stop it, because every directory but the first is made in an empty one.

* `Tree.chain` — a tree with a chain of new directories.
* `Tree.Missing` — the first missing directory of a path can be made.
* `Tree.Missing.makeDirectories_eq` — **what making the directories of a path does** then.
* `Tree.makeDirectories_cases` — it does nothing else otherwise.
* `Tree.Fresh.rewrite_eq` — a file is written in a new directory when its names are short.
-/

import Mathlib.Data.List.TakeWhile
import Workbench.Proofs.Files.Directories

namespace Workbench.Files

/-- A name is within the limit of names. -/
def Path.isShort (name : String) : Bool :=
  name.utf8ByteSize ≤ Path.nameLimit

theorem Path.isShort_iff {name : String} :
    Path.isShort name = true ↔ name.utf8ByteSize ≤ Path.nameLimit :=
  decide_eq_true_iff

/-- Up to the first name that is too long, one more name makes a difference only when all
names are short. -/
theorem Path.takeWhile_isShort_concat (names : List String) (name : String) :
    (names ++ [name]).takeWhile Path.isShort =
      if names.all Path.isShort && Path.isShort name then names ++ [name]
      else names.takeWhile Path.isShort := by
  induction names with
  | nil => cases h : Path.isShort name <;> simp [h]
  | cons first names ih =>
      cases h : Path.isShort first with
      | false => simp [h]
      | true =>
          rw [List.cons_append, List.takeWhile_cons_of_pos h, List.takeWhile_cons_of_pos h, ih,
            List.all_cons, h, Bool.true_and]
          split <;> rfl

namespace Tree

variable {tree after : Tree} {path up base : Path} {name next : String} {more names : List String}

/-! ### New directories, one in the other -/

/-- The tree with a new directory in another one, and further ones in it, one in the other. -/
def chain (tree : Tree) (base : Path) : List String → Tree
  | [] => tree
  | name :: names =>
      (tree.put (base ++ [name]) (.directory directoryMode)).chain (base ++ [name]) names

theorem chain_concat (tree : Tree) (base : Path) (names : List String) (name : String) :
    tree.chain base (names ++ [name]) =
      (tree.chain base names).put (base ++ names ++ [name]) (.directory directoryMode) := by
  induction names generalizing tree base with
  | nil => simp [chain]
  | cons first names ih => simp [chain, ih]

theorem length_put_le (tree : Tree) (path : Path) (entry : Entry) :
    (tree.put path entry).entries.length ≤ tree.entries.length + 1 := by
  have hkeys := congrArg List.length (map_fst_putIn path entry tree.entries)
  rw [List.length_map] at hkeys
  rw [put, hkeys]
  split <;> simp

theorem length_chain_le (tree : Tree) (base : Path) (names : List String) :
    (tree.chain base names).entries.length ≤ tree.entries.length + names.length := by
  induction names generalizing tree base with
  | nil => exact Nat.le_refl _
  | cons name names ih =>
      have hput := length_put_le tree (base ++ [name]) (.directory directoryMode)
      have hmore := ih (tree.put (base ++ [name]) (.directory directoryMode)) (base ++ [name])
      rw [chain, List.length_cons]
      omega

/-! ### A directory that has just been made -/

/-- A path leads to a new directory with nothing in it. -/
structure Fresh (tree : Tree) (path base : Path) : Prop where
  wellFormed : tree.WellFormed
  found : tree.find true (Path.text path) = .ok ⟨base, some (.directory directoryMode)⟩
  empty : ∀ name, tree.get? (base ++ [name]) = none

section Making

variable (hwf : tree.WellFormed) (hplain : Path.Plain (path ++ [name]))
  (hfits : Path.Fits (path ++ [name])) {mode : Nat}
  (hdir : tree.find true (Path.text path) = .ok ⟨base, some (.directory mode)⟩)

include hwf hplain hfits hdir

/-- A name is looked up in the directory to which the path before it leads. -/
theorem find_in (hfree : tree.get? (base ++ [name]) = none) (follow : Bool) :
    tree.find follow (Path.text (path ++ [name])) =
      if Path.isShort name then .ok ⟨base ++ [name], none⟩ else .error .nameTooLong := by
  rw [find_concat hwf hplain hfits, hdir]
  · show tree.enter name ⟨base, some (.directory mode)⟩ = _
    by_cases hshort : name.utf8ByteSize ≤ Path.nameLimit
    · simp [enter, Path.isShort, hshort, Nat.not_lt.mpr hshort, hfree]
    · simp [enter, Path.isShort, hshort, Nat.not_le.mp hshort]
  · intro _ place hplace target
    obtain rfl : ⟨base, _⟩ = place := by simpa [hdir] using hplace
    simp [hfree]

/-- Making a directory of a free name in another one. -/
theorem makeDirectory_in (hfree : tree.get? (base ++ [name]) = none)
    (hshort : Path.isShort name = true) :
    tree.makeDirectory (Path.text (path ++ [name])) =
        .ok (tree.put (base ++ [name]) (.directory directoryMode)) ∧
      Fresh (tree.put (base ++ [name]) (.directory directoryMode)) (path ++ [name])
        (base ++ [name]) := by
  have hfind := find_in hwf hplain hfits hdir hfree false
  rw [if_pos hshort] at hfind
  have hbase := (leads_of_find (Path.plain_append.mp hplain).1 hdir).entry_eq
  have hnodir : ¬ tree.HasDirectory (base ++ [name]) := by simp [HasDirectory, hfree]
  refine ⟨makeDirectory_eq_ok_iff.mpr ⟨_, hfind, rfl⟩, ?_, find_put_directory hplain hfind, ?_⟩
  · refine hwf.put (by simp) ?_ ?_ fun _ => rfl
    · exact Path.plain_append.mpr ⟨hwf.plain hbase, (Path.plain_append.mp hplain).2⟩
    · simpa using hasDirectory_iff.mpr ⟨mode, hbase⟩
  · intro other
    rw [get?_put_of_ne tree (by simp)]
    exact hwf.get?_below hnodir other

end Making

/-- Making a directory in a new one fails for its name only, and then nothing is made. -/
theorem Fresh.settle_eq (h : Fresh tree path base) (hplain : Path.Plain (path ++ [name]))
    (hfits : Path.Fits (path ++ [name])) :
    makeDirectories.settle (tree.makeDirectory (Path.text (path ++ [name])))
        (Path.text (path ++ [name])) tree =
      if Path.isShort name then (none, tree.put (base ++ [name]) (.directory directoryMode))
      else (some .nameTooLong, tree) := by
  cases hshort : Path.isShort name with
  | true =>
      obtain ⟨hmake, -⟩ :=
        makeDirectory_in h.wellFormed hplain hfits h.found (h.empty name) hshort
      simp [hmake, makeDirectories.settle]
  | false =>
      have hfind := find_in h.wellFormed hplain hfits h.found (h.empty name)
      have hmake : tree.makeDirectory (Path.text (path ++ [name])) = .error .nameTooLong := by
        simp only [makeDirectory, hfind, hshort]
        rfl
      have hno : tree.isDirectory (Path.text (path ++ [name])) = false :=
        not_isDirectory_of_empty h.wellFormed hplain h.found (h.empty name)
      simp [hmake, makeDirectories.settle, hno]

/-! ### The first missing directory -/

/-- A path leads to a directory as far as it is there; the next name is free in that
directory and not too long, and the whole path with the names after it can be written. -/
structure Missing (tree : Tree) (up base : Path) (next : String) (more : List String) : Prop where
  found : ∃ mode, tree.find true (Path.text up) = .ok ⟨base, some (.directory mode)⟩
  free : tree.get? (base ++ [next]) = none
  short : Path.isShort next = true
  fits : Path.Fits (up ++ next :: more)

namespace Missing

theorem init (h : tree.Missing up base next (more ++ [name])) :
    tree.Missing up base next more where
  found := h.found
  free := h.free
  short := h.short
  fits := by
    have hall : Path.Fits (up ++ next :: more ++ [name]) := by simpa using h.fits
    exact hall.of_concat

theorem concat (h : tree.Missing up base next more)
    (hfits : Path.Fits (up ++ next :: more ++ [name])) :
    tree.Missing up base next (more ++ [name]) where
  found := h.found
  free := h.free
  short := h.short
  fits := by simpa using hfits

/-- Where a directory is missing, the names after it are not found. -/
theorem find_eq_missing (h : tree.Missing up base next more) (hwf : tree.WellFormed)
    (hplain : Path.Plain (up ++ next :: more)) (hmore : more ≠ []) (follow : Bool) :
    tree.find follow (Path.text (up ++ next :: more)) = .error .missing := by
  induction more using List.reverseRecOn generalizing follow with
  | nil => exact absurd rfl hmore
  | append_singleton more name ih =>
      have hsplit : up ++ next :: (more ++ [name]) = up ++ next :: more ++ [name] := by simp
      have hfits := h.fits
      rw [hsplit] at hplain hfits ⊢
      obtain ⟨hpath, -⟩ := Path.plain_append.mp hplain
      by_cases hnil : more = []
      · subst hnil
        obtain ⟨mode, hdir⟩ := h.found
        have hnext := find_in hwf hpath hfits.of_concat hdir h.free true
        rw [if_pos h.short] at hnext
        rw [find_concat hwf hplain hfits, hnext]
        · rfl
        · intro _ place hplace target
          obtain rfl : (⟨base ++ [next], none⟩ : Place) = place := by simpa [hnext] using hplace
          have hno : ¬ tree.HasDirectory (base ++ [next]) := by simp [HasDirectory, h.free]
          rw [hwf.get?_below hno name]
          simp
      · have habove := ih h.init hpath hnil true
        rw [find_concat hwf hplain hfits, habove]
        · rfl
        · intro _ place hplace
          simp [habove] at hplace

/-- Nothing is there in a directory that is missing. -/
theorem isThere_eq_false (h : tree.Missing up base next more) (hwf : tree.WellFormed)
    (hplain : Path.Plain (up ++ next :: more ++ [name])) :
    tree.isThere (Path.text (up ++ next :: more ++ [name])) = false := by
  rw [Bool.eq_false_iff]
  intro hthere
  obtain ⟨_, _, hfind⟩ := isThere_iff.mp hthere
  have hlonger := h.concat (fits_of_find hfind)
  have hsplit : up ++ next :: more ++ [name] = up ++ next :: (more ++ [name]) := by simp
  rw [hsplit] at hplain hfind
  simp [hlonger.find_eq_missing hwf hplain (by simp) true] at hfind

/-- **What making the directories of a path does**, when the first missing one can be made:
it makes that and those in it, up to a name that is too long. -/
theorem makeDirectories_eq (h : tree.Missing up base next more) (hwf : tree.WellFormed)
    (hplain : Path.Plain (up ++ next :: more)) :
    tree.makeDirectories (up ++ next :: more).reverse =
        (if more.all Path.isShort then none else some .nameTooLong,
          tree.chain base (next :: more.takeWhile Path.isShort)) ∧
      Fresh (tree.chain base (next :: more.takeWhile Path.isShort))
        (up ++ next :: more.takeWhile Path.isShort)
        (base ++ next :: more.takeWhile Path.isShort) := by
  induction more using List.reverseRecOn with
  | nil =>
      obtain ⟨mode, hdir⟩ := h.found
      obtain ⟨hmake, hfresh⟩ := makeDirectory_in hwf hplain h.fits hdir h.free h.short
      exact ⟨by simpa [chain] using makeDirectories_of_ok hmake, by simpa [chain] using hfresh⟩
  | append_singleton more name ih =>
      have hsplit : up ++ next :: (more ++ [name]) = up ++ next :: more ++ [name] := by simp
      have hfits := h.fits
      have hmissing : tree.makeDirectory (Path.text (up ++ next :: more ++ [name])) =
          .error .missing :=
        makeDirectory_eq_missing_iff.mpr
          (hsplit ▸ h.find_eq_missing hwf hplain (by simp) false)
      rw [hsplit] at hplain hfits ⊢
      obtain ⟨hmade, hfresh⟩ := ih h.init (Path.plain_append.mp hplain).1
      rw [makeDirectories_concat, hmissing, hmade, Path.takeWhile_isShort_concat, List.all_append,
        List.all_cons, List.all_nil, Bool.and_true]
      cases hall : more.all Path.isShort with
      | false => exact ⟨rfl, hfresh⟩
      | true =>
          -- All directories before the last one have been made, and the last of them is empty.
          have hwhole := List.takeWhile_eq_self_iff.mpr (List.all_eq_true.mp hall)
          rw [hwhole] at hfresh ⊢
          simp only [if_true, Bool.true_and, hfresh.settle_eq hplain hfits]
          cases hshort : Path.isShort name with
          | true =>
              obtain ⟨-, hnew⟩ := makeDirectory_in hfresh.wellFormed hplain hfits hfresh.found
                (hfresh.empty name) hshort
              have hchain : tree.chain base (next :: (more ++ [name])) =
                  (tree.chain base (next :: more)).put (base ++ next :: more ++ [name])
                    (.directory directoryMode) :=
                chain_concat tree base (next :: more) name
              simp only [if_true, hchain, true_and]
              simpa using hnew
          | false => exact ⟨rfl, hfresh⟩

/-- What was there stays as it is when the missing directories are made. -/
theorem get?_chain (h : tree.Missing up base next more) (hwf : tree.WellFormed)
    (hplain : Path.Plain (up ++ next :: more)) {other : Path} {entry : Entry}
    (hentry : tree.get? other = some entry) :
    (tree.chain base (next :: more.takeWhile Path.isShort)).get? other = some entry :=
  (makeDirectories_grown_anywhere hwf hplain (h.makeDirectories_eq hwf hplain).1).get?_of_some
    hentry

end Missing

/-- **Making the directories of a path changes nothing**, or the first missing one can be
made. -/
theorem makeDirectories_cases (hwf : tree.WellFormed) (hplain : Path.Plain path) :
    (tree.makeDirectories path.reverse).2 = tree ∨
      ∃ up base next more, path = up ++ next :: more ∧ tree.Missing up base next more := by
  induction path using List.reverseRecOn with
  | nil => exact .inl rfl
  | append_singleton path name ih =>
      rcases makeDirectories_concat_cases rfl with
        (⟨hmake, -⟩ | ⟨hsame, -⟩) | ⟨hmissing, habove⟩
      · obtain ⟨base, mode, hfind, hdir, hshort, hfree, -⟩ :=
          exists_of_makeDirectory_concat hwf hplain hmake
        exact .inr ⟨path, base, name, [], rfl, ⟨mode, hdir⟩, hfree, Path.isShort_iff.mpr hshort,
          fits_of_find hfind⟩
      · exact .inl hsame
      · rcases ih (Path.plain_append.mp hplain).1 with hsame | ⟨up, base, next, more, rfl, hfirst⟩
        · left
          rcases habove with ⟨hstop, -⟩ | ⟨mid, hmid, hlast⟩
          · rwa [hstop] at hsame
          · obtain rfl : mid = tree := by rwa [hmid] at hsame
            rcases hlast with ⟨hmake, -⟩ | ⟨hsame, -⟩
            · simp [hmissing] at hmake
            · exact hsame
        · right
          refine ⟨up, base, next, more ++ [name], by simp, hfirst.concat ?_⟩
          by_contra hno
          obtain ⟨other, hne, hother⟩ := find_of_not_fits hno
          have hfind := makeDirectory_eq_missing_iff.mp hmissing
          rw [hother] at hfind
          exact hne (by simpa using hfind)

/-- **In a directory that has just been made** a file is written when its name, that of the
temporary file beside it and the path of that are within the limits. -/
theorem Fresh.rewrite_eq (h : tree.Fresh path base) (hr : Rewritable (path ++ [name]))
    (hroom : tree.entries.length < 16 ^ 32) (text : String) :
    (tree.rewrite (path ++ [name]) text).1 = none := by
  have hdir : tree.find true (Path.text (path ++ [name]).dropLast) =
      .ok ⟨base, some (.directory directoryMode)⟩ := by
    rw [List.dropLast_concat]
    exact h.found
  have hshort : Path.isShort name = true := Path.isShort_iff.mpr (hr.short name (by simp))
  have hfind := find_in h.wellFormed hr.plain hr.fits_path h.found (h.empty name) false
  rw [if_pos hshort] at hfind
  have hfree := get?_temporary tree (path ++ [name]) base
  have hready := find_put_free hfree hr.plain hfind
    (entry_isFile (tree.carriedMode (Path.text (path ++ [name]))) (.text text))
  have hne := path_ne_temporary tree base h.wellFormed hr.plain hfind
  rw [get?_put_of_ne tree hne, h.empty name] at hready
  rw [Tree.rewrite_eq h.wellFormed hr.plain (hr.written_in hroom hdir), hready]
  rfl

end Tree

end Workbench.Files
