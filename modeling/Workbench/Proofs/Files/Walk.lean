/-
# Following paths

Where a written path leads to, in terms of the entries on the way. A walk that
arrives somewhere is a derivation (`Tree.Leads`), and what holds of all places where
walks arrive is proved by induction on it. The last name of a walk can be taken off,
which says where a file beside another one lies, and a walk that meets no link leads
to the place that its path spells.

* `Tree.walk_cons` — one step of a walk.
* `Tree.walk_eq_ok_iff` — walks that arrive are the derivations.
* `Tree.walk_concat`, `Tree.find_concat` — **the last step of a walk**.
* `Tree.find_direct`, `Tree.find_of_parent` — paths without links on the way.
* `Tree.Leads.put`, `Tree.Leads.of_put` — walks before and after an entry is put somewhere.
-/

import Workbench.Proofs.Attempt
import Workbench.Proofs.Files.Lookup

namespace Workbench.Files

/-- The written form of a place can be handed to the operating system. -/
def Path.Fits (path : Path) : Prop :=
  '\x00' ∉ (Path.text path).toList ∧ (Path.text path).utf8ByteSize ≤ Path.textLimit

instance (path : Path) : Decidable path.Fits :=
  inferInstanceAs (Decidable (_ ∧ _))

theorem Path.Fits.of_concat {path : Path} {name : String} (h : Path.Fits (path ++ [name])) :
    path.Fits := by
  obtain ⟨hzero, hsize⟩ := h
  rw [Path.text_concat] at hzero hsize
  split at hzero
  · next hnil =>
      subst hnil
      exact ⟨by decide, by decide⟩
  · next hne =>
      rw [if_neg hne] at hsize
      refine ⟨fun mem => hzero (by simp [mem]), ?_⟩
      simp only [String.utf8ByteSize_append] at hsize
      omega

theorem Path.Fits.of_isPrefix {path other : Path} (h : other.Fits) (hp : path <+: other) :
    path.Fits := by
  obtain ⟨rest, rfl⟩ := hp
  induction rest using List.reverseRecOn with
  | nil => simpa using h
  | append_singleton rest name ih =>
      rw [← List.append_assoc] at h
      exact ih h.of_concat

/-- Whether a name can stand at the end of a written path is a matter of its length. -/
theorem Path.Fits.concat_of_le {dir : Path} {name other : String} (h : Path.Fits (dir ++ [name]))
    (hzero : '\x00' ∉ other.toList) (hle : other.utf8ByteSize ≤ name.utf8ByteSize) :
    Path.Fits (dir ++ [other]) := by
  obtain ⟨habsent, hsize⟩ := h
  unfold Path.Fits
  rw [Path.text_concat] at habsent hsize ⊢
  split
  · next hnil =>
      rw [if_pos hnil, String.utf8ByteSize_append] at hsize
      exact ⟨by simp [hzero], by rw [String.utf8ByteSize_append]; omega⟩
  · next hne =>
      rw [if_neg hne] at habsent hsize
      simp only [String.utf8ByteSize_append] at hsize ⊢
      have hdir : '\x00' ∉ (Path.text dir).toList := fun mem => habsent (by simp [mem])
      exact ⟨by simp [hzero, hdir], by omega⟩

theorem Path.Fits.not_mem_concat {dir : Path} {name : String} (h : Path.Fits (dir ++ [name])) :
    '\x00' ∉ name.toList := by
  intro mem
  refine h.1 ?_
  rw [Path.text_concat]
  split <;> simp [mem]

namespace Tree

/-! ### Steps of a walk -/

/-- A name that leads to an entry of the directory it is read in. -/
def Entering (name : String) : Prop :=
  name ≠ "." ∧ name ≠ ".." ∧ name.utf8ByteSize ≤ Path.nameLimit

/-- A walk ends at this entry, when it is the last one on the way. -/
def Ending (follow : Bool) : Option Entry → Prop
  | none => True
  | some (.file _ _) => True
  | some (.directory _) => False
  | some (.link _) => follow = false

section Steps

variable (tree : Tree) (follow : Bool) (links : Nat) (here : Path) (others : List String)

theorem walk_nil : tree.walk follow links here [] = .ok ⟨here, tree.get? here⟩ := by
  cases links <;> rfl

/-- **One step of a walk**, whatever links may still be followed. -/
theorem walk_cons (name : String) : tree.walk follow links here (name :: others) =
    if name = "." then tree.walk follow links here others
    else if name = ".." then tree.walk follow links here.dropLast others
    else if Path.nameLimit < name.utf8ByteSize then .error .nameTooLong
    else
      match tree.get? (here ++ [name]) with
      | none => if others = [] then .ok ⟨here ++ [name], none⟩ else .error .missing
      | some (.directory _) => tree.walk follow links (here ++ [name]) others
      | some (.file mode content) =>
          if others = [] then .ok ⟨here ++ [name], some (.file mode content)⟩
          else .error .notDirectory
      | some (.link target) =>
          if others = [] && !follow then .ok ⟨here ++ [name], some (.link target)⟩
          else
            match links with
            | 0 => .error .tooManyLinks
            | fewer + 1 =>
                tree.walk follow fewer (if Path.isAbsolute target then [] else here)
                  (Path.steps target ++ others) := by
  cases links <;> rfl

theorem walk_dot :
    tree.walk follow links here ("." :: others) = tree.walk follow links here others := by
  simp [walk_cons]

theorem walk_up :
    tree.walk follow links here (".." :: others) = tree.walk follow links here.dropLast others := by
  simp [walk_cons]

variable {tree follow links here others} {name target : String} {entry : Option Entry}

theorem walk_long (hdot : name ≠ ".") (hup : name ≠ "..")
    (hlong : Path.nameLimit < name.utf8ByteSize) :
    tree.walk follow links here (name :: others) = .error .nameTooLong := by
  simp [walk_cons, hdot, hup, hlong]

theorem walk_last (hname : Entering name) (hentry : tree.get? (here ++ [name]) = entry)
    (hend : Ending follow entry) :
    tree.walk follow links here [name] = .ok ⟨here ++ [name], entry⟩ := by
  obtain ⟨hdot, hup, hshort⟩ := hname
  match entry, hend with
  | none, _ => simp [walk_cons, hdot, hup, Nat.not_lt.mpr hshort, hentry]
  | some (.file _ _), _ => simp [walk_cons, hdot, hup, Nat.not_lt.mpr hshort, hentry]
  | some (.link _), hend =>
      simp [walk_cons, hdot, hup, Nat.not_lt.mpr hshort, hentry, show follow = false from hend]

theorem walk_missing (hname : Entering name) (hentry : tree.get? (here ++ [name]) = none)
    (hmore : others ≠ []) : tree.walk follow links here (name :: others) = .error .missing := by
  obtain ⟨hdot, hup, hshort⟩ := hname
  simp [walk_cons, hdot, hup, Nat.not_lt.mpr hshort, hentry, hmore]

theorem walk_blocked (hname : Entering name) {mode : Nat} {content : Content}
    (hentry : tree.get? (here ++ [name]) = some (.file mode content)) (hmore : others ≠ []) :
    tree.walk follow links here (name :: others) = .error .notDirectory := by
  obtain ⟨hdot, hup, hshort⟩ := hname
  simp [walk_cons, hdot, hup, Nat.not_lt.mpr hshort, hentry, hmore]

theorem walk_into (hname : Entering name) {mode : Nat}
    (hentry : tree.get? (here ++ [name]) = some (.directory mode)) :
    tree.walk follow links here (name :: others) =
      tree.walk follow links (here ++ [name]) others := by
  obtain ⟨hdot, hup, hshort⟩ := hname
  simp [walk_cons, hdot, hup, Nat.not_lt.mpr hshort, hentry]

theorem walk_stuck (hname : Entering name)
    (hentry : tree.get? (here ++ [name]) = some (.link target))
    (hmore : others = [] → follow = true) :
    tree.walk follow 0 here (name :: others) = .error .tooManyLinks := by
  obtain ⟨hdot, hup, hshort⟩ := hname
  simp only [walk_cons, if_neg hdot, if_neg hup, if_neg (Nat.not_lt.mpr hshort), hentry]
  rw [if_neg (by simpa using hmore)]

theorem walk_link (hname : Entering name)
    (hentry : tree.get? (here ++ [name]) = some (.link target))
    (hmore : others = [] → follow = true) :
    tree.walk follow (links + 1) here (name :: others) =
      tree.walk follow links (if Path.isAbsolute target then [] else here)
        (Path.steps target ++ others) := by
  obtain ⟨hdot, hup, hshort⟩ := hname
  simp only [walk_cons, if_neg hdot, if_neg hup, if_neg (Nat.not_lt.mpr hshort), hentry]
  rw [if_neg (by simpa using hmore)]

/-- Induction on a walk, by what it meets: over the names to read, and with every link
over the links that may still be followed. -/
theorem walk_induction (tree : Tree) (follow : Bool) {motive : Nat → Path → List String → Prop}
    (nil : ∀ links here, motive links here [])
    (dot : ∀ links here others, motive links here others → motive links here ("." :: others))
    (up : ∀ links here others, motive links here.dropLast others →
      motive links here (".." :: others))
    (long : ∀ links here name others, name ≠ "." → name ≠ ".." →
      Path.nameLimit < name.utf8ByteSize → motive links here (name :: others))
    (last : ∀ links here name, Entering name → Ending follow (tree.get? (here ++ [name])) →
      motive links here [name])
    (missing : ∀ links here name others, Entering name → tree.get? (here ++ [name]) = none →
      others ≠ [] → motive links here (name :: others))
    (blocked : ∀ links here name others mode content, Entering name →
      tree.get? (here ++ [name]) = some (.file mode content) → others ≠ [] →
      motive links here (name :: others))
    (into : ∀ links here name others mode, Entering name →
      tree.get? (here ++ [name]) = some (.directory mode) → motive links (here ++ [name]) others →
      motive links here (name :: others))
    (stuck : ∀ here name others target, Entering name →
      tree.get? (here ++ [name]) = some (.link target) → (others = [] → follow = true) →
      motive 0 here (name :: others))
    (link : ∀ links here name others target, Entering name →
      tree.get? (here ++ [name]) = some (.link target) → (others = [] → follow = true) →
      motive links (if Path.isAbsolute target then [] else here) (Path.steps target ++ others) →
      motive (links + 1) here (name :: others))
    (links : Nat) (here : Path) (rest : List String) : motive links here rest := by
  induction links using Nat.strongRecOn generalizing here rest with
  | ind links fewer =>
      induction rest generalizing here with
      | nil => exact nil links here
      | cons name others ih =>
          by_cases hdot : name = "."
          · exact hdot ▸ dot links here others (ih here)
          by_cases hup : name = ".."
          · exact hup ▸ up links here others (ih here.dropLast)
          rcases Nat.lt_or_ge Path.nameLimit name.utf8ByteSize with hlong | hshort
          · exact long links here name others hdot hup hlong
          have hname : Entering name := ⟨hdot, hup, hshort⟩
          by_cases hend : others = [] ∧ Ending follow (tree.get? (here ++ [name]))
          · exact hend.1 ▸ last links here name hname hend.2
          match hentry : tree.get? (here ++ [name]) with
          | none =>
              refine missing links here name others hname hentry fun h => hend ⟨h, ?_⟩
              simp [hentry, Ending]
          | some (.file mode content) =>
              refine blocked links here name others mode content hname hentry fun h => hend ⟨h, ?_⟩
              simp [hentry, Ending]
          | some (.directory mode) => exact into links here name others mode hname hentry (ih _)
          | some (.link target) =>
              have hmore : others = [] → follow = true := fun h => by
                by_contra hno
                exact hend ⟨h, by simpa [hentry, Ending] using hno⟩
              cases links with
              | zero => exact stuck here name others target hname hentry hmore
              | succ links =>
                  exact link links here name others target hname hentry hmore
                    (fewer links (Nat.lt_succ_self _) _ _)

end Steps

/-! ### Walks that arrive -/

/-- Following names from a directory leads to a place. -/
inductive Leads (tree : Tree) (follow : Bool) : Nat → Path → List String → Place → Prop where
  | here {links here entry} : tree.get? here = entry →
      Leads tree follow links here [] ⟨here, entry⟩
  | dot {links here others place} : Leads tree follow links here others place →
      Leads tree follow links here ("." :: others) place
  | up {links here others place} : Leads tree follow links here.dropLast others place →
      Leads tree follow links here (".." :: others) place
  | last {links here name entry} : Entering name → tree.get? (here ++ [name]) = entry →
      Ending follow entry → Leads tree follow links here [name] ⟨here ++ [name], entry⟩
  | into {links here name others place} : Entering name → tree.HasDirectory (here ++ [name]) →
      Leads tree follow links (here ++ [name]) others place →
      Leads tree follow links here (name :: others) place
  | link {links here name others target place} : Entering name →
      tree.get? (here ++ [name]) = some (.link target) → (others = [] → follow = true) →
      Leads tree follow links (if Path.isAbsolute target then [] else here)
        (Path.steps target ++ others) place →
      Leads tree follow (links + 1) here (name :: others) place

variable {tree : Tree} {follow : Bool} {links : Nat} {here path : Path}
  {rest : List String} {name : String} {place : Place} {entry : Entry}

theorem leads_of_walk (h : tree.walk follow links here rest = .ok place) :
    tree.Leads follow links here rest place := by
  induction links, here, rest using walk_induction tree follow with
  | nil links here =>
      rw [walk_nil] at h
      cases h
      exact .here rfl
  | dot links here others ih => exact .dot (ih (walk_dot .. ▸ h))
  | up links here others ih => exact .up (ih (walk_up .. ▸ h))
  | long links here name others hdot hup hlong =>
      rw [walk_long hdot hup hlong] at h
      cases h
  | last links here name hname hend =>
      rw [walk_last hname rfl hend] at h
      cases h
      exact .last hname rfl hend
  | missing links here name others hname hentry hmore =>
      rw [walk_missing hname hentry hmore] at h
      cases h
  | blocked links here name others mode content hname hentry hmore =>
      rw [walk_blocked hname hentry hmore] at h
      cases h
  | into links here name others mode hname hentry ih =>
      exact .into hname (hasDirectory_iff.mpr ⟨mode, hentry⟩) (ih (walk_into hname hentry ▸ h))
  | stuck here name others target hname hentry hmore =>
      rw [walk_stuck hname hentry hmore] at h
      cases h
  | link links here name others target hname hentry hmore ih =>
      exact .link hname hentry hmore (ih (walk_link hname hentry hmore ▸ h))

theorem Leads.walk_eq (h : tree.Leads follow links here rest place) :
    tree.walk follow links here rest = .ok place := by
  induction h with
  | here hentry => rw [walk_nil, hentry]
  | dot _ ih => rw [walk_dot, ih]
  | up _ ih => rw [walk_up, ih]
  | last hname hentry hend => exact walk_last hname hentry hend
  | into hname hdir _ ih =>
      obtain ⟨mode, hmode⟩ := hasDirectory_iff.mp hdir
      rw [walk_into hname hmode, ih]
  | link hname hlink hend _ ih => rw [walk_link hname hlink hend, ih]

/-- Walks that arrive are the derivations. -/
theorem walk_eq_ok_iff :
    tree.walk follow links here rest = .ok place ↔ tree.Leads follow links here rest place :=
  ⟨leads_of_walk, Leads.walk_eq⟩

namespace Leads

/-- A walk arrives at one place. -/
theorem unique (h : tree.Leads follow links here rest place) {found : Place}
    (hfound : tree.Leads follow links here rest found) : place = found := by
  simpa using h.walk_eq.symm.trans hfound.walk_eq

/-- A walk tells what is at the place where it ends. -/
theorem entry_eq (h : tree.Leads follow links here rest place) :
    tree.get? place.path = place.entry := by
  induction h with
  | here hentry => exact hentry
  | last _ hentry _ => exact hentry
  | dot _ ih | up _ ih | into _ _ _ ih | link _ _ _ _ ih => exact ih

/-- A walk that does not end at a link would end there if it followed one. -/
theorem following (h : tree.Leads follow links here rest place)
    (hno : ∀ target, place.entry ≠ some (.link target)) :
    tree.Leads true links here rest place := by
  induction h with
  | here hentry => exact .here hentry
  | dot _ ih => exact .dot (ih hno)
  | up _ ih => exact .up (ih hno)
  | @last _ _ _ entry hname hentry hend =>
      refine .last hname hentry ?_
      match entry with
      | none => trivial
      | some (.file _ _) => trivial
      | some (.directory _) => exact hend
      | some (.link target) => exact absurd rfl (hno target)
  | into hname hdir _ ih => exact .into hname hdir (ih hno)
  | link hname hlink _ _ ih => exact .link hname hlink (fun _ => rfl) (ih hno)

/-- A walk that arrives has read no name that is too long. -/
theorem short (h : tree.Leads follow links here rest place) :
    ∀ name ∈ rest, name.utf8ByteSize ≤ Path.nameLimit := by
  induction h with
  | here _ => simp
  | dot _ ih | up _ ih => exact List.forall_mem_cons.mpr ⟨by decide, ih⟩
  | last hname _ _ => simpa using hname.2.2
  | into hname _ _ ih => exact List.forall_mem_cons.mpr ⟨hname.2.2, ih⟩
  | link hname _ _ _ ih =>
      exact List.forall_mem_cons.mpr ⟨hname.2.2, fun n mem => ih n (List.mem_append_right _ mem)⟩

theorem parent_dropLast (hwf : tree.WellFormed) (h : tree.HasDirectory path) :
    tree.HasDirectory path.dropLast := by
  obtain ⟨mode, hmode⟩ := hasDirectory_iff.mp h
  exact hwf.parent hmode

/-- A walk goes on from a directory to whatever it meets, so it ends in a directory. -/
theorem parent (hwf : tree.WellFormed) (h : tree.Leads follow links here rest place)
    (hdir : tree.HasDirectory here) : tree.HasDirectory place.path.dropLast := by
  induction h with
  | here _ => exact parent_dropLast hwf hdir
  | dot _ ih => exact ih hdir
  | up _ ih => exact ih (parent_dropLast hwf hdir)
  | last _ _ _ => simpa using hdir
  | into _ hnext _ ih => exact ih hnext
  | @link _ _ _ _ target _ _ _ _ _ ih =>
      refine ih ?_
      split
      · exact hasDirectory_nil tree
      · exact hdir

/-- A walk that follows a link at the end does not end at a link. -/
theorem not_link (h : tree.Leads follow links here rest place) (hfollow : follow = true)
    (hdir : tree.HasDirectory here) (hwf : tree.WellFormed) (target : String) :
    place.entry ≠ some (.link target) := by
  induction h with
  | here hentry =>
      obtain ⟨mode, hmode⟩ := hasDirectory_iff.mp hdir
      simp [← hentry, hmode]
  | dot _ ih => exact ih hdir
  | up _ ih => exact ih (parent_dropLast hwf hdir)
  | last _ _ hend =>
      rintro rfl
      simp [Ending, hfollow] at hend
  | into _ hnext _ ih => exact ih hnext
  | link _ _ _ _ ih =>
      refine ih ?_
      split
      · exact hasDirectory_nil tree
      · exact hdir

/-- On the way to something a walk is in a directory, whatever names are still to be read. -/
theorem above {names more : List String}
    (h : tree.Leads follow links here (names ++ more) place) (hmore : more ≠ [])
    (hdir : tree.HasDirectory here) (hwf : tree.WellFormed) :
    ∃ base, tree.Leads true links here names ⟨base, tree.get? base⟩ ∧ tree.HasDirectory base := by
  generalize hrest : names ++ more = rest at h
  induction h generalizing names with
  | @here links here _ _ => simp [hmore] at hrest
  | @dot links here others _ _ ih =>
      rcases List.append_eq_cons_iff.mp hrest with ⟨rfl, -⟩ | ⟨names, rfl, hothers⟩
      · exact ⟨here, .here rfl, hdir⟩
      · obtain ⟨base, hleads, hbase⟩ := ih hdir hothers.symm
        exact ⟨base, .dot hleads, hbase⟩
  | @up links here others _ _ ih =>
      rcases List.append_eq_cons_iff.mp hrest with ⟨rfl, -⟩ | ⟨names, rfl, hothers⟩
      · exact ⟨here, .here rfl, hdir⟩
      · obtain ⟨base, hleads, hbase⟩ := ih (parent_dropLast hwf hdir) hothers.symm
        exact ⟨base, .up hleads, hbase⟩
  | @last links here name _ _ _ _ =>
      rcases List.append_eq_cons_iff.mp hrest with ⟨rfl, -⟩ | ⟨names, rfl, hothers⟩
      · exact ⟨here, .here rfl, hdir⟩
      · simp [hmore] at hothers
  | @into links here name others _ hname hnext _ ih =>
      rcases List.append_eq_cons_iff.mp hrest with ⟨rfl, -⟩ | ⟨names, rfl, hothers⟩
      · exact ⟨here, .here rfl, hdir⟩
      · obtain ⟨base, hleads, hbase⟩ := ih hnext hothers.symm
        exact ⟨base, .into hname hnext hleads, hbase⟩
  | @link links here name others target _ hname hlink _ _ ih =>
      rcases List.append_eq_cons_iff.mp hrest with ⟨rfl, -⟩ | ⟨names, rfl, rfl⟩
      · exact ⟨here, .here rfl, hdir⟩
      · have hstart : tree.HasDirectory (if Path.isAbsolute target then [] else here) := by
          split
          · exact hasDirectory_nil tree
          · exact hdir
        obtain ⟨base, hleads, hbase⟩ := ih hstart (List.append_assoc ..)
        exact ⟨base, .link hname hlink (fun _ => rfl) hleads, hbase⟩

/-! ### Walks in a changed tree -/

/-- A walk arrives at the same place when a file, or nothing, gives way to an entry
that is no link. -/
theorem put (h : tree.Leads follow links here rest place) (hpath : path ≠ [])
    (hold : ∀ old, tree.get? path = some old → old.isFile = true)
    (hnew : ∀ target, entry ≠ .link target) :
    (tree.put path entry).Leads follow links here rest
      ⟨place.path, (tree.put path entry).get? place.path⟩ := by
  have hnodir : ¬ tree.HasDirectory path := by
    intro hdir
    obtain ⟨mode, hmode⟩ := hasDirectory_iff.mp hdir
    simpa [Entry.isFile] using hold _ hmode
  induction h with
  | here _ => exact .here rfl
  | dot _ ih => exact .dot ih
  | up _ ih => exact .up ih
  | @last links here name old hname hentry hend =>
      by_cases heq : here ++ [name] = path
      · subst heq
        have hself := get?_put_self tree hpath entry
        cases entry with
        | file mode content => exact .last hname rfl (by simp [hself, Ending])
        | directory mode => exact .into hname (hasDirectory_iff.mpr ⟨mode, hself⟩) (.here rfl)
        | link target => exact absurd rfl (hnew target)
      · exact .last hname rfl (by rwa [get?_put_of_ne tree heq, hentry])
  | into hname hdir _ ih => exact .into hname (hdir.put fun h => absurd h hnodir) ih
  | @link _ here name _ target _ hname hlink hend _ ih =>
      have hne : here ++ [name] ≠ path := by
        rintro rfl
        simpa [Entry.isFile] using hold _ hlink
      exact .link hname (by rwa [get?_put_of_ne tree hne]) hend ih

/-- Where a walk arrives after a file was put somewhere: there, or where it arrived before. -/
theorem of_put (h : (tree.put path entry).Leads follow links here rest place)
    (hpath : path ≠ []) (hfile : entry.isFile = true) :
    place.path = path ∨ tree.Leads follow links here rest place := by
  have hself := get?_put_self tree hpath entry
  induction h with
  | @here links here old hentry =>
      by_cases heq : here = path
      · exact .inl heq
      · exact .inr (.here (by rwa [get?_put_of_ne tree heq] at hentry))
  | dot _ ih => exact ih.imp_right .dot
  | up _ ih => exact ih.imp_right .up
  | @last links here name old hname hentry hend =>
      by_cases heq : here ++ [name] = path
      · exact .inl heq
      · exact .inr (.last hname (by rwa [get?_put_of_ne tree heq] at hentry) hend)
  | @into links here name _ _ hname hdir _ ih =>
      refine ih.imp_right (.into hname ?_)
      have hne : here ++ [name] ≠ path := by
        rintro rfl
        cases entry <;> simp_all [HasDirectory, Entry.isDirectory, Entry.isFile]
      rwa [HasDirectory, get?_put_of_ne tree hne] at hdir
  | @link _ here name _ target _ hname hlink hend _ ih =>
      refine ih.imp_right (.link hname ?_ hend)
      have hne : here ++ [name] ≠ path := by
        rintro rfl
        obtain rfl : entry = .link target := by simpa [hself] using hlink
        simp [Entry.isFile] at hfile
      rwa [get?_put_of_ne tree hne] at hlink

/-- A walk to a directory leads there in every other tree that has the directories and
the links of this one. -/
theorem carry {other : Tree} (h : tree.Leads follow links here rest place)
    (hdirs : ∀ path, tree.HasDirectory path → other.HasDirectory path)
    (hlinks : ∀ path target, tree.get? path = some (.link target) →
      other.get? path = some (.link target))
    (hplace : tree.HasDirectory place.path) :
    other.Leads follow links here rest ⟨place.path, other.get? place.path⟩ := by
  induction h with
  | here _ => exact .here rfl
  | dot _ ih => exact .dot (ih hplace)
  | up _ ih => exact .up (ih hplace)
  | @last _ _ _ entry _ hentry hend =>
      obtain ⟨mode, hmode⟩ := hasDirectory_iff.mp hplace
      rw [hentry] at hmode
      simp [hmode, Ending] at hend
  | into hname hdir _ ih => exact .into hname (hdirs _ hdir) (ih hplace)
  | link hname hlink hmore _ ih => exact .link hname (hlinks _ _ hlink) hmore (ih hplace)

/-- A walk to a directory goes on to what is in it. -/
theorem concat (h : tree.Leads true links here rest place) (follow : Bool)
    (hplace : tree.HasDirectory place.path) (hname : Entering name)
    (hend : ∀ target, tree.get? (place.path ++ [name]) = some (.link target) → follow = false) :
    tree.Leads follow links here (rest ++ [name])
      ⟨place.path ++ [name], tree.get? (place.path ++ [name])⟩ := by
  induction h with
  | @here links here _ _ =>
      by_cases hdir : tree.HasDirectory (here ++ [name])
      · exact .into hname hdir (.here rfl)
      · refine .last hname rfl ?_
        match hentry : tree.get? (here ++ [name]) with
        | none => trivial
        | some (.file _ _) => trivial
        | some (.directory mode) => exact hdir (hasDirectory_iff.mpr ⟨mode, hentry⟩)
        | some (.link target) => exact hend target hentry
  | dot _ ih => exact .dot (ih hplace hend)
  | up _ ih => exact .up (ih hplace hend)
  | @last _ _ _ entry _ hentry hlast =>
      obtain ⟨mode, hmode⟩ := hasDirectory_iff.mp hplace
      rw [hentry] at hmode
      simp [hmode, Ending] at hlast
  | into hfirst hdir _ ih => exact .into hfirst hdir (ih hplace hend)
  | link hfirst hlink _ _ ih =>
      have hmore := ih hplace hend
      rw [List.append_assoc] at hmore
      exact .link hfirst hlink (by simp) hmore

/-! ### Walks without links -/

/-- A walk that meets no link leads to the place that its names spell. -/
theorem direct (h : tree.Leads follow links here rest place) (hplain : Path.Plain rest)
    (hno : ∀ via target, via <+: here ++ rest → tree.get? via ≠ some (.link target)) :
    place = ⟨here ++ rest, tree.get? (here ++ rest)⟩ := by
  induction h with
  | here hentry => simp [hentry]
  | dot _ _ => exact absurd rfl (hplain "." (.head _)).2.1
  | up _ _ => exact absurd rfl (hplain ".." (.head _)).2.2.1
  | last _ hentry _ => simp [hentry]
  | @into _ here name others _ _ _ _ ih =>
      have happ : here ++ name :: others = (here ++ [name]) ++ others := by simp
      rw [happ] at hno ⊢
      exact ih (fun n mem => hplain n (.tail _ mem)) hno
  | @link _ here name others target _ _ hlink _ _ _ =>
      exact absurd hlink (hno (here ++ [name]) target (by simp))

end Leads

/-- A path leads to the place it spells when it is a directory all the way there. -/
theorem leads_direct (hplain : Path.Plain rest)
    (hshort : ∀ name ∈ rest, name.utf8ByteSize ≤ Path.nameLimit)
    (hopen : ∀ via, via <+: here ++ rest → via ≠ here ++ rest → tree.HasDirectory via)
    (hend : ∀ target, tree.get? (here ++ rest) = some (.link target) → follow = false) :
    tree.Leads follow links here rest ⟨here ++ rest, tree.get? (here ++ rest)⟩ := by
  induction rest generalizing here with
  | nil =>
      rw [List.append_nil]
      exact .here rfl
  | cons name others ih =>
      obtain ⟨hname, hothers⟩ : Path.IsName name ∧ Path.Plain others :=
        ⟨hplain name (.head _), fun n mem => hplain n (.tail _ mem)⟩
      have hentering : Entering name := ⟨hname.2.1, hname.2.2.1, hshort name (.head _)⟩
      have happ : here ++ name :: others = (here ++ [name]) ++ others := by simp
      rw [happ] at hopen hend ⊢
      by_cases hdir : tree.HasDirectory (here ++ [name])
      · exact .into hentering hdir (ih hothers (fun n mem => hshort n (.tail _ mem)) hopen hend)
      · obtain rfl : others = [] := by
          by_contra hne
          exact hdir (hopen _ (List.prefix_append ..) (by simpa using hne))
        rw [List.append_nil] at hend ⊢
        refine .last hentering rfl ?_
        match h : tree.get? (here ++ [name]) with
        | none => trivial
        | some (.file _ _) => trivial
        | some (.directory mode) => exact hdir (hasDirectory_iff.mpr ⟨mode, h⟩)
        | some (.link target) => exact hend target h

/-! ### The last step of a walk -/

/-- Reads one more name where a walk has arrived. -/
def enter (tree : Tree) (name : String) (place : Place) : Except Fault Place :=
  match place.entry with
  | none => .error .missing
  | some (.file _ _) => .error .notDirectory
  | some (.link _) => .error .tooManyLinks
  | some (.directory _) =>
      if Path.nameLimit < name.utf8ByteSize then .error .nameTooLong
      else .ok ⟨place.path ++ [name], tree.get? (place.path ++ [name])⟩

theorem walk_singleton (hdir : tree.HasDirectory here) (hname : Path.IsName name)
    (hlast : follow = true → ∀ target, tree.get? (here ++ [name]) ≠ some (.link target)) :
    tree.walk follow links here [name] = tree.enter name ⟨here, tree.get? here⟩ := by
  obtain ⟨-, hdot, hup, -⟩ := hname
  obtain ⟨mode, hmode⟩ := hasDirectory_iff.mp hdir
  simp only [enter, hmode]
  split
  · next hlong => exact walk_long hdot hup hlong
  · next hshort =>
      have hentering : Entering name := ⟨hdot, hup, Nat.not_lt.mp hshort⟩
      match hentry : tree.get? (here ++ [name]) with
      | none => exact walk_last hentering hentry trivial
      | some (.file _ _) => exact walk_last hentering hentry trivial
      | some (.directory _) => rw [walk_into hentering hentry, walk_nil, hentry]
      | some (.link target) =>
          refine walk_last hentering hentry ?_
          by_contra hne
          exact hlast (by simpa [Ending] using hne) target hentry

/-- **The last step of a walk** that does not follow a link there is taken in the
directory to which the names before it lead. -/
theorem walk_concat (hdir : tree.HasDirectory here) (hwf : tree.WellFormed)
    (hname : Path.IsName name)
    (hlast : follow = true → ∀ place, tree.walk true links here rest = .ok place →
      ∀ target, tree.get? (place.path ++ [name]) ≠ some (.link target)) :
    tree.walk follow links here (rest ++ [name]) =
      tree.walk true links here rest >>= tree.enter name := by
  induction links, here, rest using walk_induction tree true with
  | nil links here =>
      rw [List.nil_append, walk_nil, Attempt.ok_bind]
      exact walk_singleton hdir hname fun hfollow => hlast hfollow _ (walk_nil ..)
  | dot links here others ih =>
      rw [walk_dot] at hlast
      rw [List.cons_append, walk_dot, walk_dot]
      exact ih hdir hlast
  | up links here others ih =>
      rw [walk_up] at hlast
      rw [List.cons_append, walk_up, walk_up]
      exact ih (Leads.parent_dropLast hwf hdir) hlast
  | long links here first others hdot' hup' hlong =>
      rw [List.cons_append, walk_long hdot' hup' hlong, walk_long hdot' hup' hlong]
      rfl
  | last links here first hfirst hend =>
      rw [walk_last hfirst rfl hend, List.singleton_append, Attempt.ok_bind]
      match hentry : tree.get? (here ++ [first]), hend with
      | none, _ => exact walk_missing hfirst hentry (by simp)
      | some (.file _ _), _ => exact walk_blocked hfirst hentry (by simp)
  | missing links here first others hfirst hentry hmore =>
      rw [List.cons_append, walk_missing hfirst hentry hmore, walk_missing hfirst hentry (by simp)]
      rfl
  | blocked links here first others mode content hfirst hentry hmore =>
      rw [List.cons_append, walk_blocked hfirst hentry hmore, walk_blocked hfirst hentry (by simp)]
      rfl
  | into links here first others mode hfirst hentry ih =>
      rw [walk_into hfirst hentry] at hlast
      rw [List.cons_append, walk_into hfirst hentry, walk_into hfirst hentry]
      exact ih (hasDirectory_iff.mpr ⟨mode, hentry⟩) hlast
  | stuck here first others target hfirst hentry hmore =>
      rw [List.cons_append, walk_stuck hfirst hentry hmore, walk_stuck hfirst hentry (by simp)]
      rfl
  | link links here first others target hfirst hentry hmore ih =>
      rw [walk_link hfirst hentry hmore] at hlast
      rw [List.cons_append, walk_link hfirst hentry hmore, walk_link hfirst hentry (by simp),
        ← List.append_assoc]
      refine ih ?_ hlast
      split
      · exact hasDirectory_nil tree
      · exact hdir

/-! ### Written paths -/

theorem hasDirectory_start (hhere : tree.HasDirectory tree.here) (text : String) :
    tree.HasDirectory (tree.start text) := by
  unfold start
  split
  · exact hasDirectory_nil tree
  · exact hhere

/-- Whatever a written path leads to, a walk leads there. -/
theorem leads_of_find_text {text : String} (h : tree.find follow text = .ok place) :
    tree.Leads follow linkLimit (tree.start text) (Path.steps text) place := by
  unfold find at h
  split at h
  · cases h
  · split at h
    · cases h
    · split at h
      · cases h
      · exact leads_of_walk h

theorem start_text (tree : Tree) (path : Path) : tree.start (Path.text path) = [] := by
  simp [start]

/-- Finding a place by its written form is a walk from the root. -/
theorem find_text (hplain : Path.Plain path) (hfits : path.Fits) :
    tree.find follow (Path.text path) = tree.walk follow linkLimit [] path := by
  rw [find, if_neg (by simpa using hfits.1), if_neg (Path.text_ne_empty path),
    if_neg (Nat.not_lt.mpr hfits.2), start_text, Path.steps_text hplain]

/-- The root of the file system is there. -/
theorem find_root (tree : Tree) :
    tree.find true (Path.text []) = .ok ⟨[], some (.directory directoryMode)⟩ := by
  rw [find_text Path.plain_nil (by decide), walk_nil, get?_nil]

/-- A place whose written form is too long is not found, and not because it is missing. -/
theorem find_of_not_fits (h : ¬ path.Fits) :
    ∃ fault, fault ≠ .missing ∧
      ∀ (tree : Tree) (follow : Bool), tree.find follow (Path.text path) = .error fault := by
  by_cases hzero : '\x00' ∈ (Path.text path).toList
  · exact ⟨.zeroInName, by decide, fun tree follow => by rw [find, if_pos (by simpa using hzero)]⟩
  · have hlong : Path.textLimit < (Path.text path).utf8ByteSize :=
      Nat.not_le.mp fun hle => h ⟨hzero, hle⟩
    exact ⟨.nameTooLong, by decide, fun tree follow => by
      rw [find, if_neg (by simpa using hzero), if_neg (Path.text_ne_empty path), if_pos hlong]⟩

theorem fits_of_find (h : tree.find follow (Path.text path) = .ok place) : path.Fits := by
  by_contra hno
  obtain ⟨fault, -, hfind⟩ := find_of_not_fits hno
  simp [hfind] at h

theorem leads_of_find (hplain : Path.Plain path)
    (h : tree.find follow (Path.text path) = .ok place) :
    tree.Leads follow linkLimit [] path place :=
  walk_eq_ok_iff.mp (find_text hplain (fits_of_find h) ▸ h)

theorem Leads.find_eq (h : tree.Leads follow linkLimit [] path place) (hplain : Path.Plain path)
    (hfits : path.Fits) : tree.find follow (Path.text path) = .ok place := by
  rw [find_text hplain hfits, h.walk_eq]

/-- **The last step to a place** is taken in the directory above it. -/
theorem find_concat (hwf : tree.WellFormed) (hplain : Path.Plain (path ++ [name]))
    (hfits : (path ++ [name]).Fits)
    (hlast : follow = true → ∀ place, tree.find true (Path.text path) = .ok place →
      ∀ target, tree.get? (place.path ++ [name]) ≠ some (.link target)) :
    tree.find follow (Path.text (path ++ [name])) =
      tree.find true (Path.text path) >>= tree.enter name := by
  obtain ⟨hdir, hname⟩ := Path.plain_append.mp hplain
  rw [find_text hdir hfits.of_concat] at hlast ⊢
  rw [find_text hplain hfits,
    walk_concat (hasDirectory_nil tree) hwf (Path.plain_singleton.mp hname) hlast]

theorem enter_eq_ok_iff {found : Place} :
    tree.enter name place = .ok found ↔ (∃ mode, place.entry = some (.directory mode)) ∧
      name.utf8ByteSize ≤ Path.nameLimit ∧
      found = ⟨place.path ++ [name], tree.get? (place.path ++ [name])⟩ := by
  obtain ⟨path, entry⟩ := place
  match entry with
  | none => simp [enter]
  | some (.file _ _) => simp [enter]
  | some (.link _) => simp [enter]
  | some (.directory _) =>
      by_cases hlong : Path.nameLimit < name.utf8ByteSize
      · simp [enter, hlong, Nat.not_le.mpr hlong]
      · simp [enter, hlong, Nat.not_lt.mp hlong, eq_comm]

/-- A place that is found lies in the directory that is found above it. -/
theorem exists_of_find_concat (hwf : tree.WellFormed) (hplain : Path.Plain (path ++ [name]))
    (hlast : follow = true → ∀ place, tree.find true (Path.text path) = .ok place →
      ∀ target, tree.get? (place.path ++ [name]) ≠ some (.link target))
    (h : tree.find follow (Path.text (path ++ [name])) = .ok place) :
    ∃ base mode, tree.find true (Path.text path) = .ok ⟨base, some (.directory mode)⟩ ∧
      name.utf8ByteSize ≤ Path.nameLimit ∧
      place = ⟨base ++ [name], tree.get? (base ++ [name])⟩ := by
  rw [find_concat hwf hplain (fits_of_find h) hlast] at h
  cases hdir : tree.find true (Path.text path) with
  | error fault => simp [hdir] at h
  | ok above =>
      obtain ⟨base, entry⟩ := above
      obtain ⟨⟨mode, rfl⟩, hshort, hplace⟩ := enter_eq_ok_iff.mp (hdir ▸ h : tree.enter name _ = _)
      exact ⟨base, mode, rfl, hshort, hplace⟩

/-- Whatever is above something that is found is a directory. -/
theorem find_above (hwf : tree.WellFormed) (hplain : Path.Plain path)
    (h : tree.find follow (Path.text path) = .ok place) {up : Path} (hup : up <+: path)
    (hne : up ≠ path) :
    ∃ base mode, tree.find true (Path.text up) = .ok ⟨base, some (.directory mode)⟩ := by
  obtain ⟨more, rfl⟩ := hup
  obtain ⟨base, hleads, hdir⟩ := (leads_of_find hplain h).above (by simpa using hne)
    (hasDirectory_nil tree) hwf
  obtain ⟨mode, hmode⟩ := hasDirectory_iff.mp hdir
  rw [hmode] at hleads
  exact ⟨base, mode, hleads.find_eq (Path.plain_append.mp hplain).1
    ((fits_of_find h).of_isPrefix (List.prefix_append ..))⟩

/-- A place to which no link leads is found where it is. -/
theorem find_direct (hplain : Path.Plain path)
    (hno : ∀ via target, via <+: path → tree.get? via ≠ some (.link target))
    (h : tree.find follow (Path.text path) = .ok place) : place = ⟨path, tree.get? path⟩ := by
  simpa using (leads_of_find hplain h).direct hplain (by simpa using hno)

/-- No link is on the way to an entry, or at its place if it is none. -/
theorem not_link_above (hwf : tree.WellFormed) (h : tree.get? path = some entry)
    (hno : ∀ target, entry ≠ .link target) {via : Path} (hvia : via <+: path) (target : String) :
    tree.get? via ≠ some (.link target) := by
  by_cases heq : via = path
  · rw [heq, h]
    simpa using hno target
  · obtain ⟨mode, hmode⟩ := hasDirectory_iff.mp (hwf.above h hvia heq)
    simp [hmode]

/-- A place in a directory is found. -/
theorem find_of_parent (hwf : tree.WellFormed) (hplain : Path.Plain path) (hfits : path.Fits)
    (hshort : ∀ name ∈ path, name.utf8ByteSize ≤ Path.nameLimit)
    (hparent : tree.HasDirectory path.dropLast)
    (hend : ∀ target, tree.get? path = some (.link target) → follow = false) :
    tree.find follow (Path.text path) = .ok ⟨path, tree.get? path⟩ := by
  refine Leads.find_eq ?_ hplain hfits
  refine leads_direct hplain hshort (fun via hvia hne => hwf.hasDirectory_above hparent ?_) hend
  rw [List.nil_append] at hvia hne
  obtain ⟨rest, rfl⟩ := hvia
  have hrest : rest ≠ [] := fun h => hne (by simp [h])
  rw [List.dropLast_append_of_ne_nil hrest]
  exact List.prefix_append ..

end Tree

end Workbench.Files
