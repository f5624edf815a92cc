/-
# Files behind a link

A path whose last name stands for a link is read and looked at through the link, but what
is written goes to where the last name stands. So the link gives way to a new file, and from
then on the path leads there, whatever links are on the way to it: a link that leads to a
file is on the way to no directory.

* `Tree.Leads.last_link` — a walk that ends with a link goes on with what the link says.
* `Tree.Leads.put_file` — a walk to a directory stays when a file takes the place of
  something that leads to none.
* `Tree.Behind` — a path leads to a file, and what its last name stands for.
* `Tree.Behind.rewrite_eq` — **what rewriting such a file does**.
* `Tree.Behind.rewrite_again` — such a file that was rewritten can be rewritten again.
-/

import Workbench.Proofs.Files.Rewriting

namespace Workbench.Files.Tree

variable {tree after : Tree} {follow : Bool} {links : Nat} {here path base link file : Path}
  {rest : List String} {name target text : String} {place found : Place} {entry : Entry}
  {mode : Nat} {content : Content}

/-- Where the names of a link are read. -/
def linkStart (here : Path) (target : String) : Path :=
  if Path.isAbsolute target then [] else here

theorem hasDirectory_linkStart (h : tree.HasDirectory here) (target : String) :
    tree.HasDirectory (linkStart here target) := by
  unfold linkStart
  split
  · exact hasDirectory_nil tree
  · exact h

/-! ### Changes of one entry -/

/-- Putting what is there at a place changes nothing. -/
theorem put_self (hne : path ≠ []) (h : tree.get? path = some entry) :
    tree.put path entry = tree := by
  have hkeep (entries : List (Path × Entry))
      (h : (entries.find? (·.1 == path)).map (·.2) = some entry) :
      putIn path entry entries = entries := by
    induction entries with
    | nil => simp at h
    | cons first rest ih =>
        obtain ⟨other, old⟩ := first
        by_cases heq : other = path
        · obtain rfl : old = entry := by simpa [heq] using h
          simp [putIn, heq]
        · rw [putIn, if_neg heq, ih (by simpa [heq] using h)]
  rw [get?_of_ne_nil tree hne] at h
  rw [put, hkeep tree.entries h]

/-- The last names of the places do not depend on what is there. -/
theorem filterMap_getLast? (entries : List (Path × Entry)) :
    (entries.filterMap fun (path, _) => path.getLast?) =
      (entries.map (·.1)).filterMap List.getLast? := by
  rw [List.filterMap_map]
  rfl

/-- The temporary names depend on the places of the entries alone. -/
theorem temporary_put (hne : path ≠ []) (h : tree.get? path = some entry) (new : Entry)
    (other : Path) : (tree.put path new).temporary other = tree.temporary other := by
  have hkeys : (putIn path new tree.entries).map (·.1) = tree.entries.map (·.1) := by
    rw [map_fst_putIn, if_pos (List.mem_map_of_mem (mem_of_get?_eq_some hne h))]
  have hlength : (putIn path new tree.entries).length = tree.entries.length := by
    simpa using congrArg List.length hkeys
  simp only [temporary, freeName, put, filterMap_getLast?, hkeys, hlength]

/-! ### Walks and links -/

namespace Leads

/-- A walk arrives where it did when more links may be followed. -/
theorem mono (h : tree.Leads follow links here rest place) {more : Nat} (hle : links ≤ more) :
    tree.Leads follow more here rest place := by
  induction h generalizing more with
  | here hentry => exact .here hentry
  | dot _ ih => exact .dot (ih hle)
  | up _ ih => exact .up (ih hle)
  | last hname hentry hend => exact .last hname hentry hend
  | into hname hdir _ ih => exact .into hname hdir (ih hle)
  | link hname hlink hend _ ih =>
      cases more with
      | zero => omega
      | succ more => exact .link hname hlink hend (ih (by omega))

/-- **A walk that ends with a link** goes on with what the link says. -/
theorem last_link (h : tree.Leads true links here rest ⟨base, some (.directory mode)⟩)
    (hname : Entering name) (hlink : tree.get? (base ++ [name]) = some (.link target))
    (hfound : tree.Leads true links here (rest ++ [name]) found) :
    ∃ fewer, tree.Leads true fewer (linkStart base target) (Path.steps target) found := by
  generalize hplace : (⟨base, some (.directory mode)⟩ : Place) = place at h
  induction h with
  | @here links here _ _ =>
      obtain ⟨rfl, -⟩ : base = here ∧ _ := by simpa using hplace
      cases links with
      | zero =>
          have hwalk := hfound.walk_eq
          rw [List.nil_append, walk_stuck hname hlink (fun _ => rfl)] at hwalk
          cases hwalk
      | succ links =>
          have hwalk := hfound.walk_eq
          rw [List.nil_append, walk_link hname hlink (fun _ => rfl), List.append_nil] at hwalk
          exact ⟨links, leads_of_walk hwalk⟩
  | dot _ ih =>
      have hwalk := hfound.walk_eq
      rw [List.cons_append, walk_dot] at hwalk
      exact ih (leads_of_walk hwalk) hplace
  | up _ ih =>
      have hwalk := hfound.walk_eq
      rw [List.cons_append, walk_up] at hwalk
      exact ih (leads_of_walk hwalk) hplace
  | last _ _ hend =>
      obtain ⟨-, rfl⟩ : _ ∧ some (Entry.directory mode) = _ := by simpa using hplace
      exact absurd hend (by simp [Ending])
  | into hfirst hdir _ ih =>
      obtain ⟨_, hmode⟩ := hasDirectory_iff.mp hdir
      have hwalk := hfound.walk_eq
      rw [List.cons_append, walk_into hfirst hmode] at hwalk
      exact ih (leads_of_walk hwalk) hplace
  | link hfirst hfirstLink _ _ ih =>
      have hwalk := hfound.walk_eq
      rw [List.cons_append, walk_link hfirst hfirstLink (by simp), ← List.append_assoc] at hwalk
      exact ih (leads_of_walk hwalk) hplace

/-- A walk to a directory stays when a file takes the place of something that leads to none. -/
theorem put_file (h : tree.Leads follow links here rest place)
    (hplace : tree.HasDirectory place.path) (hhere : tree.HasDirectory here)
    (hwf : tree.WellFormed) (hno : ¬ tree.HasDirectory path)
    (hlinks : ∀ target, tree.get? path = some (.link target) → ∀ more found,
      tree.Leads true more (linkStart path.dropLast target) (Path.steps target) found →
        ¬ tree.HasDirectory found.path) :
    (tree.put path (.file mode content)).Leads follow links here rest
      ⟨place.path, (tree.put path (.file mode content)).get? place.path⟩ := by
  induction h with
  | here _ => exact .here rfl
  | dot _ ih => exact .dot (ih hplace hhere)
  | up _ ih => exact .up (ih hplace (parent_dropLast hwf hhere))
  | last _ hentry hend =>
      obtain ⟨_, hmode⟩ := hasDirectory_iff.mp hplace
      rw [hentry] at hmode
      simp [hmode, Ending] at hend
  | into hname hdir _ ih =>
      exact .into hname (hdir.put fun h => absurd h hno) (ih hplace hdir)
  | @link links here name others target place hname hlink hend hrest ih =>
      have hstart := hasDirectory_linkStart hhere target
      have hne : here ++ [name] ≠ path := by
        -- Otherwise what the link says would lead to the directory, or to one on the way there.
        rintro rfl
        have hleadsNone := hlinks target hlink
        rw [List.dropLast_concat] at hleadsNone
        by_cases hothers : others = []
        · obtain rfl := hend hothers
          rw [hothers, List.append_nil] at hrest
          exact hleadsNone links place hrest hplace
        · obtain ⟨base, hleads, hbase⟩ := hrest.above hothers hstart hwf
          exact hleadsNone links _ hleads hbase
      exact .link hname (by rwa [get?_put_of_ne tree hne]) hend (ih hplace hstart)

end Leads

/-! ### A file at the end of a path -/

/-- A path that leads to no directory ends with a name in one. -/
theorem exists_concat_of_find (hwf : tree.WellFormed) (hplain : Path.Plain path)
    (hfind : tree.find false (Path.text path) = .ok found) (hno : ¬ tree.HasDirectory found.path) :
    ∃ dir name base mode, path = dir ++ [name] ∧ found.path = base ++ [name] ∧
      Entering name ∧ tree.find true (Path.text dir) = .ok ⟨base, some (.directory mode)⟩ := by
  rcases List.eq_nil_or_concat' path with rfl | ⟨dir, name, rfl⟩
  · have hroot := (leads_of_find hplain hfind).unique (.here rfl)
    exact absurd (hroot ▸ hasDirectory_nil tree) hno
  · obtain ⟨base, mode, hdir, hshort, hplace⟩ := exists_of_find_concat hwf hplain (by simp) hfind
    obtain ⟨-, hdot, hup, -⟩ := Path.plain_singleton.mp (Path.plain_append.mp hplain).2
    exact ⟨dir, name, base, mode, rfl, congrArg Place.path hplace, ⟨hdot, hup, hshort⟩, hdir⟩

/-- A path leads to a file with a text, and its last name stands for this entry. -/
structure Behind (tree : Tree) (path link file : Path) (entry : Entry) (mode : Nat)
    (text : String) : Prop where
  wellFormed : tree.WellFormed
  plain : Path.Plain path
  named : tree.find false (Path.text path) = .ok ⟨link, some entry⟩
  leads : tree.find true (Path.text path) = .ok ⟨file, some (.file mode (.text text))⟩

namespace Behind

variable (h : tree.Behind path link file entry mode text)

include h

theorem get?_link : tree.get? link = some entry :=
  (leads_of_find h.plain h.named).entry_eq

theorem get?_file : tree.get? file = some (.file mode (.text text)) :=
  (leads_of_find h.plain h.leads).entry_eq

theorem link_ne_nil : link ≠ [] := by
  rintro rfl
  have hentry := h.get?_link
  obtain rfl : Entry.directory directoryMode = entry := by simpa using hentry
  have hsame := ((leads_of_find h.plain h.named).following (by simp)).find_eq h.plain
    (fits_of_find h.named)
  simp [h.leads] at hsame

/-- The last name of the path stands for a link that leads to the file, or for the file. -/
theorem link_or_file : (∃ target, entry = .link target) ∨
    (link = file ∧ entry = .file mode (.text text)) := by
  by_cases hlink : ∃ target, entry = .link target
  · exact .inl hlink
  · have hsame := ((leads_of_find h.plain h.named).following (by simpa using hlink)).find_eq h.plain
      (fits_of_find h.named)
    rw [h.leads] at hsame
    exact .inr (by simpa [eq_comm] using hsame)

theorem not_hasDirectory : ¬ tree.HasDirectory link := by
  rcases h.link_or_file with ⟨target, rfl⟩ | ⟨-, rfl⟩
  · simp [HasDirectory, h.get?_link, Entry.isDirectory]
  · simp [HasDirectory, h.get?_link, Entry.isDirectory]

/-- The directory in which the last name of the path stands. -/
theorem exists_base : ∃ dir name base mode, path = dir ++ [name] ∧ link = base ++ [name] ∧
    Entering name ∧ tree.find true (Path.text dir) = .ok ⟨base, some (.directory mode)⟩ :=
  exists_concat_of_find h.wellFormed h.plain h.named h.not_hasDirectory

/-- A link at the end of the path leads to the file only. -/
theorem leads_to_file (htarget : tree.get? link = some (.link target)) {more : Nat}
    (hfound : tree.Leads true more (linkStart link.dropLast target) (Path.steps target) found) :
    ¬ tree.HasDirectory found.path := by
  obtain ⟨dir, name, base, _, rfl, rfl, hname, hdir⟩ := h.exists_base
  rw [List.dropLast_concat] at hfound
  obtain ⟨fewer, hfile⟩ := (leads_of_find (Path.plain_append.mp h.plain).1 hdir).last_link hname
    htarget (leads_of_find h.plain h.leads)
  have hsame := (hfound.mono (le_max_left more fewer)).unique (hfile.mono (le_max_right more fewer))
  simp [hsame, HasDirectory, h.get?_file, Entry.isDirectory]

section Replaced

variable (newMode : Nat) (new : Content)

/-- When a file takes the place of the link, the directory of it is found as before. -/
theorem find_dir {dir : Path} {old : Nat} (hpath : path = dir ++ [name])
    (hlink : link = base ++ [name])
    (hdir : tree.find true (Path.text dir) = .ok ⟨base, some (.directory old)⟩) :
    (tree.put link (.file newMode new)).find true (Path.text dir) =
      .ok ⟨base, some (.directory old)⟩ := by
  subst hpath
  have hplain := (Path.plain_append.mp h.plain).1
  have hleads := leads_of_find hplain hdir
  have hentry : tree.get? base = some (.directory old) := hleads.entry_eq
  have hkept : (tree.put link (.file newMode new)).Leads true linkLimit [] dir
      ⟨base, (tree.put link (.file newMode new)).get? base⟩ :=
    hleads.put_file (hasDirectory_iff.mpr ⟨old, hentry⟩) (hasDirectory_nil tree) h.wellFormed
      h.not_hasDirectory (fun target htarget _ _ hfound => h.leads_to_file htarget hfound)
  have hne : base ≠ link := by simp [hlink]
  rw [hkept.find_eq hplain (fits_of_find hdir), get?_put_of_ne tree hne, hentry]

/-- When a file takes the place of the link, the path leads to it. -/
theorem find_put (follow : Bool) :
    (tree.put link (.file newMode new)).find follow (Path.text path) =
      .ok ⟨link, some (.file newMode new)⟩ := by
  obtain ⟨dir, name, base, old, rfl, rfl, hname, hdir⟩ := h.exists_base
  have hafter := h.find_dir newMode new rfl rfl hdir
  have hleads := leads_of_find (Path.plain_append.mp h.plain).1 hafter
  have hself := get?_put_self tree h.link_ne_nil (.file newMode new)
  have hbase : (tree.put (base ++ [name]) (.file newMode new)).HasDirectory base :=
    hasDirectory_iff.mpr ⟨old, hleads.entry_eq⟩
  have hlast := (hleads.concat follow hbase hname (by simp [hself])).find_eq h.plain
    (fits_of_find h.named)
  rw [hlast, hself]

theorem wellFormed_put : (tree.put link (.file newMode new)).WellFormed :=
  h.wellFormed.put h.link_ne_nil (h.wellFormed.plain h.get?_link) (h.wellFormed.parent h.get?_link)
    fun hdir => absurd hdir h.not_hasDirectory

end Replaced

/-- A file that has taken the place of the link is behind the same path. -/
theorem put (newMode : Nat) (new : String) :
    (tree.put link (.file newMode (.text new))).Behind path link link (.file newMode (.text new))
      newMode new where
  wellFormed := h.wellFormed_put newMode _
  plain := h.plain
  named := h.find_put newMode _ false
  leads := h.find_put newMode _ true

theorem carriedMode_eq : tree.carriedMode (Path.text path) = mode := by
  simp [carriedMode, stat_eq_ok_iff.mpr ⟨file, h.leads⟩, Entry.mode]

/-- **What rewriting a file behind a link does**: the link gives way to a file with the text
and the permissions of the other. -/
theorem rewrite_eq {new : String} (hdone : tree.rewrite path new = (none, after)) :
    after = tree.put link (.file mode (.text new)) ∧
      ∃ base, tree.Written path.dropLast (tree.temporary path) base := by
  rcases rewrite_cases h.wellFormed h.plain new with ⟨fault, hfail⟩ |
    ⟨base, place, hw, hfind, -, hput⟩
  · simp [hfail] at hdone
  · obtain rfl : (⟨link, some entry⟩ : Place) = place := by simpa [h.named] using hfind
    rw [hput, h.carriedMode_eq] at hdone
    exact ⟨(congrArg Prod.snd hdone).symm, base, hw⟩

/-- **A file that was rewritten** can be rewritten again. -/
theorem rewrite_again {first : String} (hdone : tree.rewrite path first = (none, after))
    (second : String) :
    after.rewrite path second = (none, tree.put link (.file mode (.text second))) := by
  obtain ⟨rfl, base, hw⟩ := h.rewrite_eq hdone
  have hput := h.put mode first
  have hsame := temporary_put h.link_ne_nil h.get?_link (.file mode (.text first)) path
  have hwritten : (tree.put link (.file mode (.text first))).Written path.dropLast
      ((tree.put link (.file mode (.text first))).temporary path) base := by
    obtain ⟨dir, name, other, old, hpath, hlink, -, hdir⟩ := h.exists_base
    rw [hsame]
    refine ⟨⟨old, ?_⟩, hw.fits, hw.plain, hw.short⟩
    obtain ⟨_, hbase⟩ := hw.found
    rw [hpath, List.dropLast_concat] at hbase ⊢
    obtain ⟨rfl, -⟩ : other = base ∧ _ := by simpa [hdir] using hbase
    exact h.find_dir mode _ hpath hlink hdir
  have hfree := get?_temporary (tree.put link (.file mode (.text first))) path base
  have hready := find_put_free hfree hput.plain hput.named (entry_isFile mode (.text second))
  have hne := path_ne_temporary (tree.put link (.file mode (.text first))) base hput.wellFormed
    hput.plain hput.named
  rw [get?_put_of_ne _ hne, hput.get?_link] at hready
  have hrewrite := Tree.rewrite_eq (s := second) hput.wellFormed hput.plain hwritten
  simp only [hput.carriedMode_eq, hready] at hrewrite
  rw [hrewrite, put_put]
  rfl

end Behind

end Workbench.Files.Tree
