/-
# Making directories

Making the directories that lead to a place puts new directories at free places and
does nothing else, whether it gets there or not (`Tree.Grown`). The new ones lie
at and below the place of the first of them, so where they may lie (`inside`) is a
matter of that place alone.

* `Tree.Grown` — the trees that come of putting directories at free places.
* `Tree.makeDirectories_grown` — **what making directories does to a tree**, and where
  the path leads when it succeeds.
-/

import Workbench.Proofs.Files.Rewriting

namespace Workbench.Files.Tree

/-! ### New directories -/

/-- A tree that comes of another by putting directories at free places, one in the other. -/
inductive Grown (inside : Path → Prop) (before : Tree) : Tree → Prop where
  | same : Grown inside before before
  | made {after : Tree} {path : Path} : Grown inside before after → after.get? path = none →
      inside path → Path.Plain path → after.HasDirectory path.dropLast →
      Grown inside before (after.put path (.directory directoryMode))

variable {inside : Path → Prop} {tree before after : Tree} {path base : Path}
  {name text : String} {entry : Entry}

namespace Grown

theorem wellFormed (h : Grown inside before after) (hwf : before.WellFormed) :
    after.WellFormed := by
  induction h with
  | same => exact hwf
  | made _ hfree _ hplain hparent ih =>
      exact ih.put (ne_nil_of_get?_eq_none hfree) hplain hparent fun _ => rfl

theorem here_eq (h : Grown inside before after) : after.here = before.here := by
  induction h with
  | same => rfl
  | made _ _ _ _ _ ih => exact ih

/-- What was there stays there, and what is new is a directory. -/
theorem get?_cases (h : Grown inside before after) (path : Path) :
    after.get? path = before.get? path ∨
      (before.get? path = none ∧ after.get? path = some (.directory directoryMode) ∧
        inside path) := by
  induction h with
  | same => exact .inl rfl
  | @made after new _ hfree hin _ _ ih =>
      by_cases heq : path = new
      · subst heq
        rcases ih with hsame | ⟨-, hnew, -⟩
        · exact .inr ⟨hsame ▸ hfree, get?_put_self after (ne_nil_of_get?_eq_none hfree) _, hin⟩
        · simp [hfree] at hnew
      · rwa [get?_put_of_ne after heq]

theorem get?_of_some (h : Grown inside before after) (hentry : before.get? path = some entry) :
    after.get? path = some entry := by
  rcases h.get?_cases path with hsame | ⟨hnone, -⟩
  · rw [hsame, hentry]
  · simp [hentry] at hnone

theorem hasDirectory (h : Grown inside before after) (hdir : before.HasDirectory path) :
    after.HasDirectory path := by
  obtain ⟨mode, hmode⟩ := hasDirectory_iff.mp hdir
  exact hasDirectory_iff.mpr ⟨mode, h.get?_of_some hmode⟩

end Grown

/-! ### One directory -/

theorem makeDirectory_eq_ok_iff :
    tree.makeDirectory text = .ok after ↔ ∃ path, tree.find false text = .ok ⟨path, none⟩ ∧
      after = tree.put path (.directory directoryMode) := by
  unfold makeDirectory
  cases h : tree.find false text with
  | error fault => simp
  | ok place =>
      obtain ⟨path, entry⟩ := place
      cases entry <;> simp [eq_comm]

theorem makeDirectory_eq_missing_iff :
    tree.makeDirectory text = .error .missing ↔ tree.find false text = .error .missing := by
  unfold makeDirectory
  cases h : tree.find false text with
  | error fault => simp
  | ok place =>
      obtain ⟨path, entry⟩ := place
      cases entry <;> simp

/-- Where a directory is made, there was nothing, and now the path leads to it. -/
theorem find_put_directory (hplain : Path.Plain path)
    (hfind : tree.find false (Path.text path) = .ok ⟨base, none⟩) :
    (tree.put base (.directory directoryMode)).find true (Path.text path) =
      .ok ⟨base, some (.directory directoryMode)⟩ := by
  have hleads := leads_of_find hplain hfind
  have hfree : tree.get? base = none := hleads.entry_eq
  have hafter : (tree.put base (.directory directoryMode)).Leads true linkLimit [] path _ :=
    (hleads.following (by simp)).put (ne_nil_of_get?_eq_none hfree) (by simp [hfree]) (by simp)
  rw [hafter.find_eq hplain (fits_of_find hfind), get?_put_self tree (ne_nil_of_get?_eq_none hfree)]

/-- A place below a directory is not missing, when it is looked up without following it. -/
theorem find_ne_missing (hwf : tree.WellFormed) (hplain : Path.Plain (path ++ [name])) {mode : Nat}
    (hdir : tree.find true (Path.text path) = .ok ⟨base, some (.directory mode)⟩) :
    tree.find false (Path.text (path ++ [name])) ≠ .error .missing := by
  intro hmissing
  by_cases hfits : Path.Fits (path ++ [name])
  · rw [find_concat hwf hplain hfits (by simp), hdir] at hmissing
    have henter : tree.enter name ⟨base, some (.directory mode)⟩ = .error .missing := hmissing
    simp only [enter] at henter
    split at henter <;> simp at henter
  · obtain ⟨fault, hne, hfault⟩ := find_of_not_fits hfits
    rw [hfault] at hmissing
    exact hne (by simpa using hmissing)

/-- Nothing is there below a directory in which nothing of that name is. -/
theorem not_isThere_of_empty (hwf : tree.WellFormed) (hplain : Path.Plain (path ++ [name]))
    {mode : Nat} (hdir : tree.find true (Path.text path) = .ok ⟨base, some (.directory mode)⟩)
    (hempty : tree.get? (base ++ [name]) = none) :
    tree.isThere (Path.text (path ++ [name])) = false := by
  rw [Bool.eq_false_iff]
  intro hthere
  obtain ⟨other, found, hfind⟩ := isThere_iff.mp hthere
  obtain ⟨base', _, hdir', -, hplace⟩ := exists_of_find_concat hwf hplain
    (fun _ place hplace target => by
      obtain rfl : ⟨base, _⟩ = place := by simpa [hdir] using hplace
      simp [hempty]) hfind
  obtain ⟨rfl, -⟩ : base = base' ∧ _ := by simpa [hdir] using hdir'
  simp [hempty] at hplace

theorem not_isDirectory_of_empty (hwf : tree.WellFormed) (hplain : Path.Plain (path ++ [name]))
    {mode : Nat} (hdir : tree.find true (Path.text path) = .ok ⟨base, some (.directory mode)⟩)
    (hempty : tree.get? (base ++ [name]) = none) :
    tree.isDirectory (Path.text (path ++ [name])) = false := by
  have hno := not_isThere_of_empty hwf hplain hdir hempty
  rw [Bool.eq_false_iff] at hno ⊢
  intro hthere
  obtain ⟨other, mode', hfind⟩ := isDirectory_iff.mp hthere
  exact hno (isThere_iff.mpr ⟨other, _, hfind⟩)

/-- A directory that can be made is at a free name in the one to which the path above it
leads. -/
theorem exists_of_makeDirectory_concat (hwf : tree.WellFormed)
    (hplain : Path.Plain (path ++ [name]))
    (h : tree.makeDirectory (Path.text (path ++ [name])) = .ok after) :
    ∃ base mode, tree.find false (Path.text (path ++ [name])) = .ok ⟨base ++ [name], none⟩ ∧
      tree.find true (Path.text path) = .ok ⟨base, some (.directory mode)⟩ ∧
      name.utf8ByteSize ≤ Path.nameLimit ∧ tree.get? (base ++ [name]) = none ∧
      after = tree.put (base ++ [name]) (.directory directoryMode) := by
  obtain ⟨new, hfind, rfl⟩ := makeDirectory_eq_ok_iff.mp h
  obtain ⟨base, mode, hdir, hshort, hnew⟩ := exists_of_find_concat hwf hplain (by simp) hfind
  obtain ⟨rfl, hfree⟩ : new = base ++ [name] ∧ none = tree.get? (base ++ [name]) := by
    simpa using hnew
  exact ⟨base, mode, hfind, hdir, hshort, hfree.symm, rfl⟩

/-! ### All directories of a path -/

/-- The last directory of a path is made by itself, or after those above it. -/
theorem makeDirectories_concat (tree : Tree) (path : Path) (name : String) :
    tree.makeDirectories (path ++ [name]).reverse =
      match tree.makeDirectory (Path.text (path ++ [name])) with
      | .ok made => (none, made)
      | .error .missing =>
          match tree.makeDirectories path.reverse with
          | (some fault, after) => (some fault, after)
          | (none, after) =>
              makeDirectories.settle (after.makeDirectory (Path.text (path ++ [name])))
                (Path.text (path ++ [name])) after
      | .error fault =>
          makeDirectories.settle (.error fault) (Path.text (path ++ [name])) tree := by
  have hpath : (name :: path.reverse).reverse = path ++ [name] := by simp
  rw [← hpath, List.reverse_reverse]
  rfl

/-- Where a path leads when its directories are made: to a directory that was there, or
to a new and empty one. -/
def Arrived (inside : Path → Prop) (before after : Tree) (path : Path) : Prop :=
  ∃ base mode, after.find true (Path.text path) = .ok ⟨base, some (.directory mode)⟩ ∧
    (after = before ∨
      (before.get? base = none ∧ (∀ name, after.get? (base ++ [name]) = none) ∧
        ∀ rest, inside (base ++ rest)))

/-- The first new directory of a path is at a place at and below which new directories may
lie. -/
def Anchored (inside : Path → Prop) (tree : Tree) (path : Path) : Prop :=
  ∀ up name base mode, up ++ [name] <+: path →
    tree.find true (Path.text up) = .ok ⟨base, some (.directory mode)⟩ →
    tree.get? (base ++ [name]) = none → ∀ rest, inside (base ++ name :: rest)

theorem Anchored.of_isPrefix (h : tree.Anchored inside path) {other : Path} (hp : other <+: path) :
    tree.Anchored inside other :=
  fun up name base mode hup => h up name base mode (hup.trans hp)

/-- Making one directory in one that is there, or that has just been made. -/
theorem arrived_of_makeDirectory (hwf : tree.WellFormed) (hplain : Path.Plain (path ++ [name]))
    (hgrown : Grown inside before tree) {made : Tree}
    (h : tree.makeDirectory (Path.text (path ++ [name])) = .ok made)
    (hin : ∀ base mode, tree.find true (Path.text path) = .ok ⟨base, some (.directory mode)⟩ →
      tree.get? (base ++ [name]) = none → ∀ rest, inside (base ++ name :: rest)) :
    Grown inside before made ∧ Arrived inside before made (path ++ [name]) := by
  obtain ⟨base, mode, hfind, hdir, -, hfree, rfl⟩ := exists_of_makeDirectory_concat hwf hplain h
  obtain ⟨hpath, hname⟩ := Path.plain_append.mp hplain
  have hbase : tree.get? base = some (.directory mode) := (leads_of_find hpath hdir).entry_eq
  have hbaseDir : tree.HasDirectory base := hasDirectory_iff.mpr ⟨mode, hbase⟩
  have hnodir : ¬ tree.HasDirectory (base ++ [name]) := by simp [HasDirectory, hfree]
  refine ⟨.made hgrown hfree (hin base mode hdir hfree [])
      (Path.plain_append.mpr ⟨hwf.plain hbase, hname⟩) (by simpa using hbaseDir),
    base ++ [name], _, find_put_directory hplain hfind, .inr ⟨?_, fun below => ?_, fun rest => ?_⟩⟩
  · rcases hgrown.get?_cases (base ++ [name]) with hsame | ⟨hnone, -⟩
    · rw [← hsame, hfree]
    · exact hnone
  · rw [get?_put_of_ne tree (by simp)]
    exact hwf.get?_below hnodir below
  · simpa using hin base mode hdir hfree rest

/-- What came of making one directory: it is new, or nothing was changed and one that is
there will do. -/
def Settled (tree : Tree) (text : String) (outcome : Option Fault) (after : Tree) : Prop :=
  (tree.makeDirectory text = .ok after ∧ outcome = none) ∨
    (after = tree ∧ tree.isDirectory text = outcome.isNone)

theorem settled_of_settle {attempt : Except Fault Tree} {outcome : Option Fault}
    (h : makeDirectories.settle attempt text tree = (outcome, after))
    (hmade : ∀ made, attempt = .ok made → tree.makeDirectory text = .ok made) :
    tree.Settled text outcome after := by
  cases attempt with
  | ok made =>
      obtain ⟨rfl, rfl⟩ : none = outcome ∧ made = after := by
        simpa [makeDirectories.settle] using h
      exact .inl ⟨hmade made rfl, rfl⟩
  | error fault =>
      simp only [makeDirectories.settle] at h
      split at h
      · next hdir =>
          obtain ⟨rfl, rfl⟩ : none = outcome ∧ tree = after := by simpa using h
          exact .inr ⟨rfl, hdir⟩
      · next hno =>
          obtain ⟨rfl, rfl⟩ : some fault = outcome ∧ tree = after := by simpa using h
          exact .inr ⟨rfl, by simpa using hno⟩

/-- The last directory of a path is settled at once, or what is above it was missing and is
made first, as far as that goes. -/
theorem makeDirectories_concat_cases {outcome : Option Fault}
    (h : tree.makeDirectories (path ++ [name]).reverse = (outcome, after)) :
    tree.Settled (Path.text (path ++ [name])) outcome after ∨
      (tree.makeDirectory (Path.text (path ++ [name])) = .error .missing ∧
        ((tree.makeDirectories path.reverse = (outcome, after) ∧ outcome ≠ none) ∨
          ∃ mid, tree.makeDirectories path.reverse = (none, mid) ∧
            mid.Settled (Path.text (path ++ [name])) outcome after)) := by
  rw [makeDirectories_concat] at h
  split at h
  · next made hmake =>
      obtain ⟨rfl, rfl⟩ : none = outcome ∧ made = after := by simpa using h
      exact .inl (.inl ⟨hmake, rfl⟩)
  · next hmissing =>
      refine .inr ⟨hmissing, ?_⟩
      split at h
      · next fault mid habove =>
          obtain ⟨rfl, rfl⟩ : some fault = outcome ∧ mid = after := by simpa using h
          exact .inl ⟨habove, by simp⟩
      · next mid habove => exact .inr ⟨mid, habove, settled_of_settle h fun _ => id⟩
  · exact .inl (settled_of_settle h (by simp))

/-- **What making directories does to a tree**: it puts new directories at free places,
and when it succeeds the path leads to a directory. -/
theorem makeDirectories_grown (hwf : tree.WellFormed) (hplain : Path.Plain path)
    (hin : tree.Anchored inside path) {outcome : Option Fault}
    (h : tree.makeDirectories path.reverse = (outcome, after)) :
    Grown inside tree after ∧ (outcome = none → Arrived inside tree after path) := by
  induction path using List.reverseRecOn generalizing outcome after with
  | nil =>
      obtain ⟨rfl, rfl⟩ : none = outcome ∧ tree = after := by simpa [makeDirectories] using h
      exact ⟨.same, fun _ => ⟨[], _, tree.find_root, .inl rfl⟩⟩
  | append_singleton path name ih =>
      obtain ⟨hpath, -⟩ := Path.plain_append.mp hplain
      have habove := hin.of_isPrefix (List.prefix_append path [name])
      rcases makeDirectories_concat_cases h with
        (⟨hmake, -⟩ | ⟨rfl, hthere⟩) | ⟨hmissing, ⟨hstop, hne⟩ | ⟨mid, hmid, hlast⟩⟩
      · obtain ⟨hgrown, harrived⟩ := arrived_of_makeDirectory hwf hplain .same hmake
          fun base mode hdir => hin path name base mode (List.prefix_refl _) hdir
        exact ⟨hgrown, fun _ => harrived⟩
      · refine ⟨.same, fun hnone => ?_⟩
        obtain ⟨base, mode, hfind⟩ := isDirectory_iff.mp (hthere.trans (by simp [hnone]))
        exact ⟨base, mode, hfind, .inl rfl⟩
      · exact ⟨(ih hpath habove hstop).1, fun hnone => absurd hnone hne⟩
      · obtain ⟨hgrown, harrived⟩ := ih hpath habove hmid
        obtain ⟨base, mode, hdir, hbase⟩ := harrived rfl
        obtain ⟨-, hempty, hinside⟩ := hbase.resolve_left fun heq => by
          subst heq
          exact find_ne_missing hwf hplain hdir (makeDirectory_eq_missing_iff.mp hmissing)
        have hwfMid := hgrown.wellFormed hwf
        rcases hlast with ⟨hmake, -⟩ | ⟨rfl, hthere⟩
        · obtain ⟨hmore, hnew⟩ := arrived_of_makeDirectory hwfMid hplain hgrown hmake
            fun base' mode' hdir' _ rest => by
              obtain ⟨rfl, -⟩ : base = base' ∧ mode = mode' := by simpa [hdir] using hdir'
              exact hinside (name :: rest)
          exact ⟨hmore, fun _ => hnew⟩
        · refine ⟨hgrown, fun hnone => ?_⟩
          -- The new directory is empty, so nothing is there that could do instead.
          have hno := not_isDirectory_of_empty hwfMid hplain hdir (hempty name)
          simp [hno, hnone] at hthere

theorem makeDirectories_of_ok (h : tree.makeDirectory (Path.text (path ++ [name])) = .ok after) :
    tree.makeDirectories (path ++ [name]).reverse = (none, after) := by
  rw [makeDirectories_concat, h]

/-- **A directory that is not there is made**, in the one to which the path above it leads.
If that one had to be made as well, it was empty before. -/
theorem makeDirectories_made (hwf : tree.WellFormed) (hplain : Path.Plain (path ++ [name]))
    (hno : tree.isDirectory (Path.text (path ++ [name])) = false)
    (h : tree.makeDirectories (path ++ [name]).reverse = (none, after)) :
    ∃ mid base mode, Grown (fun _ => True) tree mid ∧
      (mid = tree ∨ ∀ other, mid.get? (base ++ [other]) = none) ∧
      mid.makeDirectory (Path.text (path ++ [name])) = .ok after ∧
      mid.find true (Path.text path) = .ok ⟨base, some (.directory mode)⟩ ∧
      name.utf8ByteSize ≤ Path.nameLimit ∧ mid.get? (base ++ [name]) = none ∧
      after = mid.put (base ++ [name]) (.directory directoryMode) := by
  obtain ⟨hpath, -⟩ := Path.plain_append.mp hplain
  rcases makeDirectories_concat_cases h with
    (⟨hmake, -⟩ | ⟨-, hthere⟩) | ⟨-, ⟨-, hne⟩ | ⟨mid, hmid, hagain⟩⟩
  · obtain ⟨base, mode, -, hmade⟩ := exists_of_makeDirectory_concat hwf hplain hmake
    exact ⟨tree, base, mode, .same, .inl rfl, hmake, hmade⟩
  · simp [hno] at hthere
  · exact absurd rfl hne
  · obtain ⟨hgrown, harrived⟩ : Grown (fun _ => True) tree mid ∧ _ :=
      makeDirectories_grown hwf hpath (fun _ _ _ _ _ _ _ _ => trivial) hmid
    obtain ⟨base, mode, hdir, hbase⟩ := harrived rfl
    have hwfMid := hgrown.wellFormed hwf
    rcases hagain with ⟨hmake, -⟩ | ⟨rfl, hthere⟩
    · obtain ⟨base', mode', -, hmade⟩ := exists_of_makeDirectory_concat hwfMid hplain hmake
      obtain ⟨rfl, -⟩ : base = base' ∧ mode = mode' := by simpa [hdir] using hmade.1
      exact ⟨mid, base, mode', hgrown, hbase.imp_right fun hnew => hnew.2.1, hmake, hmade⟩
    · rcases hbase with rfl | ⟨-, hempty, -⟩
      · simp [hno] at hthere
      · simp [not_isDirectory_of_empty hwfMid hplain hdir (hempty name)] at hthere

/-- Wherever new directories may lie, making directories makes nothing else. -/
theorem makeDirectories_grown_anywhere (hwf : tree.WellFormed) (hplain : Path.Plain path)
    {outcome : Option Fault} (h : tree.makeDirectories path.reverse = (outcome, after)) :
    Grown (fun _ => True) tree after :=
  (makeDirectories_grown hwf hplain (fun _ _ _ _ _ _ _ _ => trivial) h).1

/-! ### Directories that cannot be made -/

/-- **Where directories cannot be made** nothing was changed, or the last directory on the
way that is there was made anew and is empty. -/
theorem makeDirectories_stopped (hwf : tree.WellFormed) (hplain : Path.Plain path) {fault : Fault}
    (h : tree.makeDirectories path.reverse = (some fault, after)) :
    after = tree ∨ ∃ up next rest base mode, path = up ++ next :: rest ∧
      after.find true (Path.text up) = .ok ⟨base, some (.directory mode)⟩ ∧
      ∀ other, after.get? (base ++ [other]) = none := by
  induction path using List.reverseRecOn with
  | nil => simp [makeDirectories] at h
  | append_singleton path name ih =>
      obtain ⟨hpath, -⟩ := Path.plain_append.mp hplain
      rcases makeDirectories_concat_cases h with
        (⟨-, hnone⟩ | ⟨rfl, -⟩) | ⟨hmissing, ⟨habove, -⟩ | ⟨mid, hmid, ⟨-, hnone⟩ | ⟨rfl, -⟩⟩⟩
      · cases hnone
      · exact .inl rfl
      · refine (ih hpath habove).imp_right ?_
        rintro ⟨up, next, rest, base, mode, rfl, hfind, hempty⟩
        exact ⟨up, next, rest ++ [name], base, mode, by simp, hfind, hempty⟩
      · cases hnone
      · obtain ⟨-, harrived⟩ : Grown (fun _ => True) tree after ∧ _ :=
          makeDirectories_grown hwf hpath (fun _ _ _ _ _ _ _ _ => trivial) hmid
        obtain ⟨base, mode, hdir, hbase⟩ := harrived rfl
        rcases hbase with rfl | ⟨-, hempty, -⟩
        · exact absurd (makeDirectory_eq_missing_iff.mp hmissing) (find_ne_missing hwf hplain hdir)
        · exact .inr ⟨path, name, [], base, mode, rfl, hdir, hempty⟩

end Workbench.Files.Tree
