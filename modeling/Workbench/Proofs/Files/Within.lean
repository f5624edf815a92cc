/-
# Trees within trees

A tree from which something was taken away lies within the one before: whatever is in it
was there. What a path leads to in the part it leads to in the whole as well
(`Tree.Within.find`), so nothing can be found anew when things are only taken away.

* `Tree.Within` — all that is in one tree is in the other.
* `Tree.Cleared.not_find` — **what was cleared away** is not found again.
* `Tree.exists_of_find_below` — a name below a path is found in the directory to which the
  path leads.
* `Tree.leavesAlone_of_apart` — a change at and below a place leaves alone what is found without
  that place.
-/

import Workbench.Proofs.Files.Staging
import Workbench.Proofs.Project.Resolving

namespace Workbench.Files.Tree

variable {tree part whole after : Tree} {follow : Bool} {links : Nat} {here path : Path}
  {rest : List String} {base name text : String} {place : Place} {entry : Entry}

/-! ### Parts of a tree -/

/-- All that is in one tree is in the other, and both are seen from the same directory. -/
structure Within (part whole : Tree) : Prop where
  here : part.here = whole.here
  entry : ∀ path entry, part.get? path = some entry → whole.get? path = some entry

theorem Cleared.within (h : whole.Cleared text part) : part.Within whole :=
  ⟨h.here_eq, fun _ _ => h.get?_of_some⟩

theorem Grown.within {inside : Path → Prop} (h : Grown inside part whole) : part.Within whole :=
  ⟨h.here_eq.symm, fun _ _ => h.get?_of_some⟩

namespace Within

theorem refl (tree : Tree) : tree.Within tree :=
  ⟨rfl, fun _ _ h => h⟩

theorem trans {mid : Tree} (h : part.Within mid) (hmid : mid.Within whole) : part.Within whole :=
  ⟨h.here.trans hmid.here, fun path entry hentry => hmid.entry path entry (h.entry path entry hentry)⟩

theorem hasDirectory (h : part.Within whole) (hdir : part.HasDirectory path) :
    whole.HasDirectory path := by
  obtain ⟨mode, hmode⟩ := hasDirectory_iff.mp hdir
  exact hasDirectory_iff.mpr ⟨mode, h.entry path _ hmode⟩

theorem start_eq (h : part.Within whole) (text : String) : part.start text = whole.start text := by
  rw [start, start, h.here]

/-- A walk to something leads there in the whole, too. -/
theorem leads (h : part.Within whole) (hleads : part.Leads follow links here rest place)
    (hsome : place.entry = some entry) : whole.Leads follow links here rest place := by
  induction hleads with
  | here hentry => exact .here (h.entry _ _ (hentry.trans hsome) |>.trans hsome.symm)
  | dot _ ih => exact .dot (ih hsome)
  | up _ ih => exact .up (ih hsome)
  | last hname hentry hend =>
      exact .last hname (h.entry _ _ (hentry.trans hsome) |>.trans hsome.symm) hend
  | into hname hdir _ ih => exact .into hname (h.hasDirectory hdir) (ih hsome)
  | link hname hlink hmore _ ih => exact .link hname (h.entry _ _ hlink) hmore (ih hsome)

/-- **What is found in the part** is found in the whole. -/
theorem find (h : part.Within whole) (hfind : part.find follow text = .ok ⟨path, some entry⟩) :
    whole.find follow text = .ok ⟨path, some entry⟩ := by
  obtain ⟨hgiven, hleads⟩ := find_eq_ok_iff.mp hfind
  exact find_eq_ok_iff.mpr ⟨hgiven, h.start_eq text ▸ h.leads hleads rfl⟩

theorem isThere_eq_false (h : part.Within whole) (hno : whole.isThere text = false) :
    part.isThere text = false := by
  rw [Bool.eq_false_iff] at hno ⊢
  intro hthere
  obtain ⟨path, entry, hfind⟩ := isThere_iff.mp hthere
  exact hno (isThere_iff.mpr ⟨path, entry, h.find hfind⟩)

theorem isDirectory (h : part.Within whole) (hdir : part.isDirectory text = true) :
    whole.isDirectory text = true := by
  obtain ⟨path, mode, hfind⟩ := isDirectory_iff.mp hdir
  exact isDirectory_iff.mpr ⟨path, mode, h.find hfind⟩

/-- What is found in the part is reached in the whole over the same places. -/
theorem leadsFar (h : part.Within whole) (hfind : part.find true text = .ok ⟨path, some entry⟩) :
    whole.leadsFar text = part.leadsFar text := by
  have hleads := leads_of_find_text hfind
  refine leadsFar_congr h.here.symm fun other mem => ?_
  rcases hleads.of_mem_trace mem with hdir | ⟨target, hlink⟩ | heq
  · obtain ⟨mode, hmode⟩ := hasDirectory_iff.mp hdir
    rw [hmode, h.entry _ _ hmode]
  · rw [hlink, h.entry _ _ hlink]
  · have hentry : part.get? other = some entry := heq ▸ hleads.entry_eq
    rw [hentry, h.entry _ _ hentry]

theorem realPath (h : part.Within whole) (hreal : part.realPath text = .ok path) :
    whole.realPath text = .ok path := by
  obtain ⟨⟨entry, hfind⟩, htold⟩ := realPath_eq_ok_iff.mp hreal
  exact realPath_eq_ok_iff.mpr ⟨⟨entry, h.find hfind⟩, (h.leadsFar hfind).trans htold⟩

end Within

/-! ### What was cleared away -/

/-- A walk that ends in a name, and follows no link there, looks for it in the directory to
which the names before it lead. -/
theorem Leads.exists_last (h : tree.Leads false links here (rest ++ [name]) place)
    (hname : Path.IsName name) (hdir : tree.HasDirectory here) (hwf : tree.WellFormed) :
    ∃ dir, tree.Leads true links here rest ⟨dir, tree.get? dir⟩ ∧ tree.HasDirectory dir ∧
      place = ⟨dir ++ [name], tree.get? (dir ++ [name])⟩ := by
  obtain ⟨dir, habove, hopen⟩ := h.above (by simp) hdir hwf
  have hentering : Entering name := ⟨hname.2.1, hname.2.2.1, h.short name (by simp)⟩
  exact ⟨dir, habove, hopen, h.unique (habove.concat false hopen hentering (by simp))⟩

/-- What a name leads to is not the root. -/
theorem ne_nil_of_find (hwf : tree.WellFormed) (hhere : tree.HasDirectory (tree.start text))
    (hsteps : Path.steps text = rest ++ [name]) (hname : Path.IsName name)
    (hfind : tree.find false text = .ok place) : place.path ≠ [] := by
  have hleads := (find_eq_ok_iff.mp hfind).2
  rw [hsteps] at hleads
  obtain ⟨dir, -, -, rfl⟩ := hleads.exists_last hname hhere hwf
  simp

namespace Cleared

variable (h : tree.Cleared text after)

include h

/-- Nothing but the root is found again where something was cleared away. -/
theorem eq_nil_of_find (hfind : after.find false text = .ok ⟨path, some entry⟩) : path = [] := by
  have hbefore := h.within.find hfind
  have hentry : after.get? path = some entry := (find_eq_ok_iff.mp hfind).2.entry_eq
  by_contra hne
  rcases h.cases with ⟨gone, _, hgone, rfl⟩ | ⟨gone, _, hgone, rfl⟩ | ⟨hno, rfl⟩
  · obtain ⟨rfl, -⟩ : path = gone ∧ _ := by simpa [hgone, eq_comm] using hbefore
    simp [get?_prune tree hne] at hentry
  · obtain ⟨rfl, -⟩ : path = gone ∧ _ := by simpa [hgone, eq_comm] using hbefore
    simp [get?_erase_self tree hne] at hentry
  · rcases hno with ⟨other, hother⟩ | hmissing
    · simp [hfind] at hother
    · simp [hfind] at hmissing

/-- **What was cleared away** is not found again. -/
theorem not_find (hwf : tree.WellFormed) (hhere : tree.HasDirectory (tree.start text))
    (hsteps : Path.steps text = rest ++ [name]) (hname : Path.IsName name) (path : Path)
    (entry : Entry) : after.find false text ≠ .ok ⟨path, some entry⟩ := fun hfind =>
  ne_nil_of_find hwf hhere hsteps hname (h.within.find hfind) (h.eq_nil_of_find hfind)

/-- **What does not lie where something is cleared away** stays. -/
theorem get?_of_apart (hentry : tree.get? path = some entry)
    (hapart : ∀ place found, tree.find false text = .ok ⟨place, some found⟩ → ¬ place <+: path) :
    after.get? path = some entry := by
  by_cases hne : path = []
  · subst hne
    simpa using hentry
  · rcases h.cases with ⟨gone, _, hgone, rfl⟩ | ⟨gone, _, hgone, rfl⟩ | ⟨-, rfl⟩
    · rw [get?_prune tree hne, if_neg (hapart gone _ hgone), hentry]
    · rw [get?_erase_of_ne tree, hentry]
      rintro rfl
      exact hapart _ _ hgone (List.prefix_refl _)
    · exact hentry

/-- What is missing afterwards lay where something was cleared away. -/
theorem exists_gone (hentry : tree.get? path = some entry) (hnone : after.get? path = none) :
    ∃ gone found, tree.find false text = .ok ⟨gone, some found⟩ ∧ gone <+: path := by
  by_contra hno
  push Not at hno
  simp [h.get?_of_apart hentry hno] at hnone

end Cleared

/-- A walk without `..` that arrives at something starts in a directory. -/
theorem Leads.opened (h : tree.Leads follow links here rest place)
    (hsome : place.entry = some entry) (hup : ".." ∉ rest) (hmore : ∃ step ∈ rest, step ≠ ".")
    (hwf : tree.WellFormed) : tree.HasDirectory here := by
  have hparent {name : String} {found : Entry} (hfound : tree.get? (here ++ [name]) = some found) :
      tree.HasDirectory here := by
    simpa using hwf.parent hfound
  induction h with
  | here _ => simp at hmore
  | dot _ ih => exact ih hsome (fun mem => hup (.tail _ mem)) (by simpa using hmore) hparent
  | up _ _ => simp at hup
  | last _ hentry _ => exact hparent (hentry.trans hsome)
  | into _ hdir _ _ =>
      obtain ⟨_, hmode⟩ := hasDirectory_iff.mp hdir
      exact hparent hmode
  | link _ hlink _ _ _ => exact hparent hlink

/-- Nothing is found through a directory in which the next name is not. -/
theorem Leads.entry_eq_none {names : List String} {next : String} {dir : Path}
    (h : tree.Leads follow links here (names ++ next :: rest) place)
    (hdir : tree.Leads true links here names ⟨dir, tree.get? dir⟩) (hopen : tree.HasDirectory dir)
    (hnext : Path.IsName next) (hnone : tree.get? (dir ++ [next]) = none)
    (hhere : tree.HasDirectory here) (hwf : tree.WellFormed) : place.entry = none := by
  have hentering : Entering next := ⟨hnext.2.1, hnext.2.2.1, h.short next (by simp)⟩
  by_cases hrest : rest = []
  · subst hrest
    rw [h.unique (hdir.concat follow hopen hentering (by simp [hnone])), hnone]
  · rw [List.append_cons] at h
    obtain ⟨other, hother, hotherDir⟩ := h.above hrest hhere hwf
    have hsame := hother.unique (hdir.concat true hopen hentering (by simp [hnone]))
    obtain rfl : other = dir ++ [next] := congrArg Place.path hsame
    simp [HasDirectory, hnone] at hotherDir

/-- **Where a written path leads to a directory**, all names on the way from the root are there. -/
theorem exists_of_way {start other : Path} {dir up : List String} {next : String}
    (hwf : tree.WellFormed) (hopen : tree.HasDirectory start)
    (h : tree.Leads true linkLimit start dir ⟨path, tree.get? path⟩) (hpath : tree.HasDirectory path)
    (hplain : Path.Plain (up ++ [next])) (hin : up ++ [next] <+: start ++ dir.filter (· != "."))
    (hup : tree.Leads true linkLimit [] up ⟨other, tree.get? other⟩) (hother : tree.HasDirectory other) :
    ∃ entry, tree.get? (other ++ [next]) = some entry := by
  obtain ⟨hupPlain, hnext⟩ := Path.plain_append.mp hplain
  have hon (hin : up ++ [next] <+: start) : ∃ entry, tree.get? (other ++ [next]) = some entry := by
    have hvia {via : Path} (h : via <+: up) : tree.HasDirectory via :=
      hwf.hasDirectory_above hopen (h.trans ((List.prefix_append up [next]).trans hin))
    obtain rfl : other = up := congrArg Place.path (hup.direct hupPlain fun via target h hlink => by
      simpa [HasDirectory, hlink, Entry.isDirectory] using hvia (show via <+: up from h))
    obtain ⟨mode, hmode⟩ := hasDirectory_iff.mp (hwf.hasDirectory_above hopen hin)
    exact ⟨_, hmode⟩
  rcases List.prefix_or_prefix_of_prefix hin (List.prefix_append ..) with hstart | hstart
  · exact hon hstart
  · rcases List.prefix_concat_iff.mp hstart with heq | hbehind
    · exact hon (heq ▸ List.prefix_refl _)
    · -- The names of the start can be read, so the way can be followed from the root.
      have hreaches : tree.Reaches start dir path :=
        .of_leads hwf hopen (fun step mem => hup.short step (hbehind.subset mem)) h hpath
      obtain ⟨more, hmore⟩ := hin
      have hall := hreaches.leads
      rw [← hmore, List.append_assoc, List.singleton_append] at hall
      by_contra hno
      push Not at hno
      have hnone : tree.get? path = none := hall.entry_eq_none hup hother
        (Path.plain_singleton.mp hnext) (Option.eq_none_iff_forall_ne_some.mpr hno)
        (hasDirectory_nil _) hwf
      simp [HasDirectory, hnone] at hpath

/-- **Where the directories on the way could not be made**, what was cleared away is not
found again either. -/
theorem Cleared.not_find_of_stopped (h : tree.Cleared text after) (hwf : tree.WellFormed)
    (hhere : tree.HasDirectory (tree.start text)) (hsteps : Path.steps text = rest ++ [name])
    (hplain : Path.Plain (tree.start text ++ rest.filter (· != ".") ++ [name])) {fault : Fault}
    {partway : Tree} (hmake : after.makeDirectoriesTo text = (some fault, partway)) (path : Path)
    (entry : Entry) : partway.find false text ≠ .ok ⟨path, some entry⟩ := by
  obtain ⟨hdirs, hlast⟩ := Path.plain_append.mp hplain
  have hname := Path.plain_singleton.mp hlast
  obtain ⟨-, hrest⟩ := Path.plain_append.mp hdirs
  rw [makeDirectoriesTo_eq h.here_eq hsteps hname.2.1] at hmake
  have hwfAfter := h.wellFormed hwf
  have hgrown := makeDirectories_grown_anywhere hwfAfter hplain hmake
  have hwfPartway := hgrown.wellFormed hwfAfter
  rcases makeDirectories_stopped hwfAfter hplain hmake with
    rfl | ⟨up, next, more, dir, mode, hpath, hdir, hempty⟩
  · exact h.not_find hwf hhere hsteps hname path entry
  intro hfind
  have hleads := (find_eq_ok_iff.mp hfind).2
  rw [← hgrown.within.start_eq, h.within.start_eq, hsteps] at hleads
  have hup : ".." ∉ rest ++ [name] := by
    intro mem
    rcases List.mem_append.mp mem with mem | mem
    · exact (hrest ".." (List.mem_filter.mpr ⟨mem, by decide⟩)).2.2.1 rfl
    · exact hname.2.2.1 (List.mem_singleton.mp mem).symm
  have hopen : partway.HasDirectory (tree.start text) :=
    hleads.opened rfl hup ⟨name, by simp, hname.2.1⟩ hwfPartway
  obtain ⟨base, hbase, hbaseDir, hplace⟩ := hleads.exists_last hname hopen hwfPartway
  have hin : up ++ [next] <+: tree.start text ++ rest.filter (· != ".") ++ [name] :=
    ⟨more, by simp [hpath]⟩
  have hupPlain : Path.Plain (up ++ [next]) := hplain.of_isPrefix hin
  have hthrough := leads_of_find (Path.plain_append.mp hupPlain).1 hdir
  rcases List.prefix_concat_iff.mp hin with hwhole | hwithin
  · -- The name was found in the directory that is empty.
    obtain ⟨rfl, rfl⟩ : up = tree.start text ++ rest.filter (· != ".") ∧ next = name := by
      simpa using List.append_inj' hwhole rfl
    have hreaches : partway.Reaches (tree.start text) rest base := .of_leads hwfPartway hopen
      (fun step mem => hthrough.short step (List.mem_append_left _ mem)) hbase hbaseDir
    obtain rfl : dir = base := congrArg Place.path (hthrough.unique hreaches.leads)
    simpa [hempty next] using congrArg Place.entry hplace
  · -- The way to the name leads through the directory that is empty.
    obtain ⟨entry, hentry⟩ := exists_of_way hwfPartway hopen hbase hbaseDir hupPlain hwithin
      (hthrough.entry_eq ▸ hthrough) (hasDirectory_iff.mpr ⟨mode, hthrough.entry_eq⟩)
    simp [hempty next] at hentry

/-! ### Links at the end of a path -/

/-- A walk that ends at something when it follows a link there ends at something, too, when
it does not. -/
theorem Leads.unfollowed (h : tree.Leads true links here rest place)
    (hsome : place.entry = some entry) :
    ∃ path found, tree.Leads false links here rest ⟨path, some found⟩ := by
  induction h with
  | here hentry => exact ⟨_, entry, .here (hentry.trans hsome)⟩
  | dot _ ih =>
      obtain ⟨path, found, hleads⟩ := ih hsome
      exact ⟨path, found, .dot hleads⟩
  | up _ ih =>
      obtain ⟨path, found, hleads⟩ := ih hsome
      exact ⟨path, found, .up hleads⟩
  | last hname hentry hend =>
      obtain rfl : _ = some entry := hsome
      refine ⟨_, entry, .last hname hentry ?_⟩
      cases entry with
      | file mode content => trivial
      | directory mode => exact hend
      | link target => rfl
  | into hname hdir _ ih =>
      obtain ⟨path, found, hleads⟩ := ih hsome
      exact ⟨path, found, .into hname hdir hleads⟩
  | @link _ here name others target _ hname hlink _ _ ih =>
      by_cases hothers : others = []
      · exact hothers ▸ ⟨_, .link target, .last hname hlink rfl⟩
      · obtain ⟨path, found, hleads⟩ := ih hsome
        exact ⟨path, found, .link hname hlink (fun hnil => absurd hnil hothers) hleads⟩

/-- Where not even a link is found, nothing is there. -/
theorem isThere_eq_false_of_find
    (h : ∀ path entry, tree.find false text ≠ .ok ⟨path, some entry⟩) :
    tree.isThere text = false := by
  rw [Bool.eq_false_iff]
  intro hthere
  obtain ⟨_, _, hfind⟩ := isThere_iff.mp hthere
  obtain ⟨hgiven, hleads⟩ := find_eq_ok_iff.mp hfind
  obtain ⟨path, found, hleads⟩ := hleads.unfollowed rfl
  exact h path found (find_eq_ok_iff.mpr ⟨hgiven, hleads⟩)

/-! ### Names below a path -/

/-- A walk to a directory arrives there with a dot at its end as well. -/
theorem Leads.concat_dot (h : tree.Leads true links here rest place)
    (hdir : tree.HasDirectory place.path) : tree.Leads true links here (rest ++ ["."]) place := by
  induction h with
  | here hentry => exact .dot (.here hentry)
  | dot _ ih => exact .dot (ih hdir)
  | up _ ih => exact .up (ih hdir)
  | last _ hentry hend =>
      obtain ⟨mode, hmode⟩ := hasDirectory_iff.mp hdir
      rw [hentry] at hmode
      simp [hmode, Ending] at hend
  | into hname hnext _ ih => exact .into hname hnext (ih hdir)
  | link hname hlink _ _ ih =>
      have hmore := ih hdir
      rw [List.append_assoc] at hmore
      exact .link hname hlink (by simp) hmore

/-- Names below one path are looked for from the same directory. -/
theorem start_below {other : String} (h : Path.IsName name) (hother : Path.IsName other) :
    tree.start (Path.below base name) = tree.start (Path.below base other) := by
  rw [start, start, Path.isAbsolute_below_eq h.2.2.2 hother.2.2.2]

/-- **What is found below a path** is in the directory to which the path leads. -/
theorem exists_of_find_below (hwf : tree.WellFormed) (hhere : tree.HasDirectory tree.here)
    (hbase : base ≠ "") (hname : Path.IsName name)
    (hfind : tree.find false (Path.below base name) = .ok place) :
    ∃ dir mode, tree.find true base = .ok ⟨dir, some (.directory mode)⟩ ∧
      place.path = dir ++ [name] := by
  obtain ⟨hgiven, hleads⟩ := find_eq_ok_iff.mp hfind
  have hstart : tree.start (Path.below base name) = tree.start base := by
    rw [start, start, Path.isAbsolute_below hbase hname.2.2.2]
  rw [hstart, Path.steps_below base hname.2.2.2 hname.1] at hleads
  obtain ⟨dir, habove, hdir, rfl⟩ := hleads.exists_last hname (hasDirectory_start hhere base) hwf
  obtain ⟨mode, hmode⟩ := hasDirectory_iff.mp hdir
  refine ⟨dir, mode, find_eq_ok_iff.mpr ⟨Path.given_of_below hbase hname.2.2.2 hgiven, ?_⟩, rfl⟩
  rw [hmode] at habove
  rcases Path.steps_cases base with hsteps | hsteps
  · exact hsteps ▸ habove
  · exact hsteps ▸ habove.concat_dot hdir

/-- **Two names below one path** are looked for in one directory. -/
theorem exists_of_find_beside {first second : String} (hwf : tree.WellFormed)
    (hhere : tree.HasDirectory tree.here) (hfirst : Path.IsName first) (hsecond : Path.IsName second)
    (hfind : tree.find false (Path.below base second) = .ok place) :
    ∃ dir, tree.Leads true linkLimit (tree.start (Path.below base first)) (Path.inner base)
        ⟨dir, tree.get? dir⟩ ∧ tree.HasDirectory dir ∧ place.path = dir ++ [second] := by
  have hleads := (find_eq_ok_iff.mp hfind).2
  rw [Path.steps_below base hsecond.2.2.2 hsecond.1, start_below hsecond hfirst] at hleads
  obtain ⟨dir, hdir, hopen, rfl⟩ := hleads.exists_last hsecond (hasDirectory_start hhere _) hwf
  exact ⟨dir, hdir, hopen, rfl⟩

/-! ### Changes elsewhere -/

/-- A change leaves alone what a text leads to: it is found in a part that both trees have. -/
def LeavesAlone (text : String) (before after : Tree) : Prop :=
  ∃ part : Tree, part.Within before ∧ part.Within after ∧ ∀ path entry,
    before.find true text = .ok ⟨path, some entry⟩ → part.find true text = .ok ⟨path, some entry⟩

theorem LeavesAlone.find {before : Tree} (h : LeavesAlone text before after)
    (hfind : before.find true text = .ok ⟨path, some entry⟩) :
    after.find true text = .ok ⟨path, some entry⟩ := by
  obtain ⟨part, -, hafter, hsame⟩ := h
  exact hafter.find (hsame path entry hfind)

/-- **Any change at and below a place** leaves alone what is found without that place. -/
theorem leavesAlone_of_apart {before : Tree} {root : Path} (hhere : after.here = before.here)
    (hsame : ∀ path, ¬ root <+: path → after.get? path = before.get? path)
    (hfind : ∀ path entry, before.find true text = .ok ⟨path, some entry⟩ →
      (before.prune root).find true text = .ok ⟨path, some entry⟩) :
    LeavesAlone text before after := by
  have hkept (path : Path) (entry : Entry) (h : (before.prune root).get? path = some entry) :
      before.get? path = some entry ∧ after.get? path = some entry := by
    by_cases hnil : path = []
    · subst hnil
      exact ⟨h, h⟩
    · rw [get?_prune before hnil] at h
      split at h
      · cases h
      · next hapart => exact ⟨h, (hsame path hapart).trans h⟩
  exact ⟨before.prune root, ⟨rfl, fun path entry h => (hkept path entry h).1⟩,
    ⟨hhere.symm, fun path entry h => (hkept path entry h).2⟩, hfind⟩

end Workbench.Files.Tree
