/-
# Taking a directory away again

A directory that was made at a free place, with a file in it or without one, is taken away
again, and nothing is left of it: the tree is the one in which it was made.

* `Tree.removeDirectory_filled`, `Tree.removeDirectory_put` — **the tree is as it was**.
* `Tree.Within.move` — what was there is still there when the directory is moved to a free
  place instead.
-/

import Workbench.Proofs.Files.Within

namespace Workbench.Files.Tree

variable {tree mid : Tree} {path other start base : Path} {dir : List String}
  {name below new text : String} {entry : Entry} {mode : Nat} {content : Content}

/-! ### Taking away what was put somewhere -/

/-- What is put below a place goes with it. -/
theorem prune_put (tree : Tree) (h : path <+: other) (entry : Entry) :
    (tree.put other entry).prune path = tree.prune path := by
  unfold put prune
  congr 1
  have hgone : path.isPrefixOf other = true := List.isPrefixOf_iff_prefix.mpr h
  induction tree.entries with
  | nil => simp [putIn, hgone]
  | cons first rest ih =>
      obtain ⟨place, old⟩ := first
      by_cases heq : place = other
      · simp [putIn, heq, hgone]
      · simp [putIn, heq, List.filter_cons, ih]

theorem WellFormed.prune_eq_self (hwf : tree.WellFormed) (hfree : tree.get? path = none) :
    tree.prune path = tree := by
  unfold Tree.prune
  congr 1
  refine List.filter_eq_self.mpr fun e mem => ?_
  have hno : path.isPrefixOf e.1 = false := Bool.eq_false_iff.mpr
    (mt List.isPrefixOf_iff_prefix.mp (not_below_of_free hwf hfree (hwf.get?_of_mem mem)))
  simp [hno]

theorem prune_filled (hwf : mid.WellFormed) (hfree : mid.get? (base ++ [name]) = none) :
    (mid.filled base name below mode content).prune (base ++ [name]) = mid := by
  have hin : base ++ [name] <+: base ++ [name, below] := ⟨[below], by simp⟩
  rw [filled, prune_put _ hin, prune_put _ (List.prefix_refl _), hwf.prune_eq_self hfree]

section Removed

variable (hwf : mid.WellFormed) (hfree : mid.get? (base ++ [name]) = none)
  (hreach : mid.Reaches start dir base) (hname : Entering name)
  (htext : mid.start text = start ∧ Path.steps text = dir ++ [name]) (hgiven : Path.Given text)

include hreach hname htext hgiven

theorem find_name : mid.find false text = .ok ⟨base ++ [name], mid.get? (base ++ [name])⟩ := by
  refine find_eq_ok_iff.mpr ⟨hgiven, ?_⟩
  rw [htext.1, htext.2]
  exact hreach.leads_name false hname (by simp)

include hfree

theorem removeDirectory_free : mid.removeDirectory text = .error .missing := by
  have hfind := find_name hreach hname htext hgiven
  rw [hfree] at hfind
  simp [removeDirectory, hfind]

include hwf

/-- **A directory that was made** is taken away, and the tree is as it was. -/
theorem removeDirectory_put :
    (mid.put (base ++ [name]) (.directory directoryMode)).removeDirectory text = .ok mid := by
  have hfind := find_name (hreach.put hfree (.directory directoryMode)) hname htext hgiven
  rw [get?_put_self mid (by simp)] at hfind
  have hgone : (mid.put (base ++ [name]) (.directory directoryMode)).prune (base ++ [name]) = mid := by
    rw [prune_put mid (List.prefix_refl _), hwf.prune_eq_self hfree]
  simp [removeDirectory, hfind, hgone]

/-- **A directory with a file in it** is taken away, and the tree is as it was. -/
theorem removeDirectory_filled :
    (mid.filled base name below mode content).removeDirectory text = .ok mid := by
  have hreachFull : (mid.filled base name below mode content).Reaches start dir base :=
    hreach.filled hwf hfree
  have hfind := find_name hreachFull hname htext hgiven
  rw [get?_filled_old] at hfind
  simp [removeDirectory, hfind, prune_filled hwf hfree]

end Removed

/-! ### Moving it to a free place -/

/-- What was there is still there when a directory made beside it is moved to a free place. -/
theorem Within.move (hwf : mid.WellFormed) (hfree : mid.get? (base ++ [name]) = none)
    (hnew : mid.get? (base ++ [new]) = none) :
    mid.Within ((mid.filled base name below mode content).move (base ++ [name]) (base ++ [new])) := by
  refine ⟨rfl, fun path entry hentry => ?_⟩
  rw [get?_move_elsewhere (not_below_of_free hwf hfree hentry)
    (not_below_of_free hwf hnew hentry)]
  exact get?_filled hwf hfree hentry

/-- The directory is at the free place to which it is moved. -/
theorem get?_moved (hwf : mid.WellFormed) (hfree : mid.get? (base ++ [name]) = none)
    (hnew : mid.get? (base ++ [new]) = none) (hbase : mid.HasDirectory base)
    (hplain : Path.Plain [name, below]) (hne : new ≠ name) :
    ((mid.filled base name below mode content).move (base ++ [name]) (base ++ [new])).get?
        (base ++ [new]) = some (.directory directoryMode) := by
  have hempty : (mid.filled base name below mode content).below (base ++ [new]) = [] :=
    below_filled hwf hfree hbase hplain hne (.inl hnew)
  have hapart : ¬ base ++ [name] <+: base ++ [new] := by simpa using hne.symm
  have hmoved := get?_move_target (by simp) (by simp) hapart (below_eq_nil_iff.mp hempty) []
  rwa [List.append_nil, List.append_nil, get?_filled_old] at hmoved

/-- Nothing is where a directory was moved away. -/
theorem get?_move_source {source target : Path} (hsource : source ≠ [])
    (hno : ¬ target <+: source) : (mid.move source target).get? source = none := by
  rw [get?_of_ne_nil _ hsource, entries_move, Option.map_eq_none_iff, List.find?_eq_none]
  intro e mem
  obtain ⟨old, -, rfl⟩ := List.mem_map.mp mem
  have hne : movedTo source target old.1 ≠ source := by
    unfold movedTo
    split
    · exact fun heq => hno ⟨_, heq⟩
    · next hstays => exact fun heq => hstays (by simp [heq])
  simpa using hne

/-- A directory can be moved to a free place whether there is a file in it or not. -/
theorem rename_put_of_filled {here there : String} {moved : Tree} (hwf : mid.WellFormed)
    (hfree : mid.get? (base ++ [name]) = none) (hreach : mid.Reaches start dir base)
    (hname : Entering name) (hnew : Path.IsName new) (hne : new ≠ name)
    (hhere : mid.start here = start ∧ Path.steps here = dir ++ [name])
    (hthere : mid.start there = start ∧ Path.steps there = dir ++ [new])
    (hnothing : mid.isThere there = false)
    (hrename : (mid.filled base name below mode content).rename here there = .ok moved) :
    mid.get? (base ++ [new]) = none ∧
      moved = (mid.filled base name below mode content).move (base ++ [name]) (base ++ [new]) ∧
      ((mid.put (base ++ [name]) (.directory directoryMode)).rename here there).isOk = true := by
  have hstays : (mid.filled base name below mode content).get? (base ++ [new]) =
      mid.get? (base ++ [new]) := by
    rw [filled, get?_put_of_ne _ (by simp), get?_put_of_ne _ (by simpa using hne)]
  obtain ⟨hgiven, hgivenThere, hentering, hvacant, hmoved⟩ :=
    vacant_of_rename (hreach.filled hwf hfree) (get?_filled_old ..) hname hnew hne hhere hthere
      hrename
  rw [hstays] at hvacant
  have hnone : mid.get? (base ++ [new]) = none := by
    rcases hvacant with hnone | ⟨⟨mode, hmode⟩, -⟩
    · exact hnone
    · have hdir : mid.get? (base ++ [new]) = some (.directory mode) := hmode
      have hleads := hreach.leads_name true hentering (by simp [hdir])
      rw [← hthere.1, ← hthere.2, hdir] at hleads
      simp [isThere_iff.mpr ⟨_, _, find_eq_ok_iff.mpr ⟨hgivenThere, hleads⟩⟩] at hnothing
  have hput : (mid.put (base ++ [name]) (.directory directoryMode)).Reaches start dir base :=
    hreach.put hfree _
  have hfind := find_name hput hname hhere hgiven
  rw [get?_put_self mid (by simp)] at hfind
  have hfindThere := find_name hput hentering hthere hgivenThere
  rw [get?_put_of_ne mid (by simpa using hne), hnone] at hfindThere
  refine ⟨hnone, hmoved, Attempt.isOk_iff.mpr ⟨_, (rename_eq_ok_iff hfind fun place hplace => ?_).mpr
    ⟨_, hfindThere, .inl rfl, rfl⟩⟩⟩
  obtain rfl : (⟨base ++ [new], none⟩ : Place) = place := by simpa [hfindThere] using hplace
  simpa using hne.symm

end Workbench.Files.Tree
