/-
# Places on the way

A real place is told by looking at every place on the way to it by its own written form
(`Tree.trace`), so it is not told where one of them is too long to be written, although
what is there can be found (`Tree.realPath_eq_ok_iff`).

* `Tree.trace_induction` — induction on what is looked at.
* `Tree.trace_congr` — what is looked at depends on what is at these places only.
* `Tree.leadsFar_of_isPrefix` — a path that goes on behind one that leads far leads far.
* `Tree.leadsFar_direct` — a path without links on the way leads no further than it spells.
-/

import Workbench.Proofs.Files.Walk

namespace Workbench.Files.Tree

variable {tree other : Tree} {links : Nat} {here path up real : Path} {rest more : List String}
  {text : String} {place : Place}

/-! ### Places that are looked at -/

theorem trace_nil (tree : Tree) (links : Nat) (here : Path) : tree.trace links here [] = [] := by
  cases links <;> rfl

/-- **One step of looking**, whatever links may still be followed. -/
theorem trace_cons (tree : Tree) (links : Nat) (here : Path) (name : String) (others : List String) :
    tree.trace links here (name :: others) =
      if name = "." then tree.trace links here others
      else if name = ".." then tree.trace links here.dropLast others
      else if Path.nameLimit < name.utf8ByteSize then []
      else
        (here ++ [name]) :: match tree.get? (here ++ [name]) with
          | some (.directory _) => tree.trace links (here ++ [name]) others
          | some (.link target) =>
              match links with
              | 0 => []
              | fewer + 1 =>
                  tree.trace fewer (if Path.isAbsolute target then [] else here)
                    (Path.steps target ++ others)
          | _ => [] := by
  cases links <;> rfl

section Steps

variable {name target : String} {others : List String}

@[simp] theorem trace_dot :
    tree.trace links here ("." :: others) = tree.trace links here others := by
  simp [trace_cons]

@[simp] theorem trace_up :
    tree.trace links here (".." :: others) = tree.trace links here.dropLast others := by
  simp [trace_cons]

theorem trace_long (hdot : name ≠ ".") (hup : name ≠ "..")
    (hlong : Path.nameLimit < name.utf8ByteSize) :
    tree.trace links here (name :: others) = [] := by
  simp [trace_cons, hdot, hup, hlong]

theorem trace_entering (hname : Entering name) : tree.trace links here (name :: others) =
    (here ++ [name]) :: match tree.get? (here ++ [name]) with
      | some (.directory _) => tree.trace links (here ++ [name]) others
      | some (.link target) =>
          match links with
          | 0 => []
          | fewer + 1 =>
              tree.trace fewer (if Path.isAbsolute target then [] else here)
                (Path.steps target ++ others)
      | _ => [] := by
  obtain ⟨hdot, hup, hshort⟩ := hname
  rw [trace_cons, if_neg hdot, if_neg hup, if_neg (Nat.not_lt.mpr hshort)]

/-- A way goes on behind a place: behind a directory, and behind a link that may still be
followed. -/
def LeadsOn (tree : Tree) (links : Nat) (path : Path) : Prop :=
  tree.HasDirectory path ∨ 0 < links ∧ ∃ target, tree.get? path = some (.link target)

theorem leadsOn_congr (h : other.get? path = tree.get? path) :
    other.LeadsOn links path ↔ tree.LeadsOn links path := by
  simp only [LeadsOn, HasDirectory, h]

theorem not_leadsOn_of_ending (hend : Ending true (tree.get? path)) :
    ¬ tree.LeadsOn links path := by
  rintro (hdir | ⟨-, target, hlink⟩)
  · obtain ⟨mode, hmode⟩ := hasDirectory_iff.mp hdir
    simp [hmode, Ending] at hend
  · simp [hlink, Ending] at hend

/-- Nothing is looked at where no way goes on. -/
theorem trace_ending (hname : Entering name) (hend : ¬ tree.LeadsOn links (here ++ [name])) :
    tree.trace links here (name :: others) = [here ++ [name]] := by
  rw [trace_entering hname]
  cases hentry : tree.get? (here ++ [name]) with
  | none => rfl
  | some entry =>
      cases entry with
      | file mode content => rfl
      | directory mode => exact absurd (.inl (hasDirectory_iff.mpr ⟨mode, hentry⟩)) hend
      | link target =>
          cases links with
          | zero => rfl
          | succ fewer => exact absurd (.inr ⟨Nat.succ_pos fewer, target, hentry⟩) hend

theorem trace_into (hname : Entering name) (hdir : tree.HasDirectory (here ++ [name])) :
    tree.trace links here (name :: others) =
      (here ++ [name]) :: tree.trace links (here ++ [name]) others := by
  obtain ⟨mode, hmode⟩ := hasDirectory_iff.mp hdir
  simp [trace_entering hname, hmode]

theorem trace_link (hname : Entering name)
    (hlink : tree.get? (here ++ [name]) = some (.link target)) :
    tree.trace (links + 1) here (name :: others) =
      (here ++ [name]) :: tree.trace links (if Path.isAbsolute target then [] else here)
        (Path.steps target ++ others) := by
  simp [trace_entering hname, hlink]

end Steps

/-- Induction on what is looked at, by what there is on the way. -/
theorem trace_induction (tree : Tree) {motive : Nat → Path → List String → Prop}
    (nil : ∀ links here, motive links here [])
    (dot : ∀ links here others, motive links here others → motive links here ("." :: others))
    (up : ∀ links here others, motive links here.dropLast others →
      motive links here (".." :: others))
    (long : ∀ links here name others, name ≠ "." → name ≠ ".." →
      Path.nameLimit < name.utf8ByteSize → motive links here (name :: others))
    (ending : ∀ links here name others, Entering name → ¬ tree.LeadsOn links (here ++ [name]) →
      motive links here (name :: others))
    (into : ∀ links here name others, Entering name → tree.HasDirectory (here ++ [name]) →
      motive links (here ++ [name]) others → motive links here (name :: others))
    (link : ∀ links here name others target, Entering name →
      tree.get? (here ++ [name]) = some (.link target) →
      motive links (if Path.isAbsolute target then [] else here) (Path.steps target ++ others) →
      motive (links + 1) here (name :: others))
    (links : Nat) (here : Path) (rest : List String) : motive links here rest := by
  induction links, here, rest using walk_induction tree true with
  | nil links here => exact nil links here
  | dot links here others ih => exact dot links here others ih
  | up links here others ih => exact up links here others ih
  | long links here name others hdot hup hlong => exact long links here name others hdot hup hlong
  | last links here name hname hend =>
      exact ending links here name [] hname (not_leadsOn_of_ending hend)
  | missing links here name others hname hentry _ =>
      exact ending links here name others hname (by simp [LeadsOn, HasDirectory, hentry])
  | blocked links here name others mode content hname hentry _ =>
      refine ending links here name others hname ?_
      simp [LeadsOn, HasDirectory, hentry, Entry.isDirectory]
  | into links here name others mode hname hentry ih =>
      exact into links here name others hname (hasDirectory_iff.mpr ⟨mode, hentry⟩) ih
  | stuck here name others target hname hentry _ =>
      refine ending 0 here name others hname ?_
      simp [LeadsOn, HasDirectory, hentry, Entry.isDirectory]
  | link links here name others target hname hentry _ ih =>
      exact link links here name others target hname hentry ih

/-- Whoever goes on looks at the same places first. -/
theorem mem_trace_append (h : path ∈ tree.trace links here rest) :
    path ∈ tree.trace links here (rest ++ more) := by
  induction links, here, rest using trace_induction tree with
  | nil links here => simp [trace_nil] at h
  | dot links here others ih =>
      rw [List.cons_append, trace_dot]
      exact ih (trace_dot ▸ h)
  | up links here others ih =>
      rw [List.cons_append, trace_up]
      exact ih (trace_up ▸ h)
  | long links here name others hdot hup hlong => simp [trace_long hdot hup hlong] at h
  | ending links here name others hname hend =>
      rw [trace_ending hname hend] at h
      rwa [List.cons_append, trace_ending hname hend]
  | into links here name others hname hdir ih =>
      rw [trace_into hname hdir] at h
      rw [List.cons_append, trace_into hname hdir]
      exact (List.mem_cons.mp h).elim (· ▸ .head _) fun h => .tail _ (ih h)
  | link links here name others target hname hlink ih =>
      rw [trace_link hname hlink] at h
      rw [List.cons_append, trace_link hname hlink, ← List.append_assoc]
      exact (List.mem_cons.mp h).elim (· ▸ .head _) fun h => .tail _ (ih h)

/-- **What is looked at** depends on what is at these places only. -/
theorem trace_congr (h : ∀ path ∈ tree.trace links here rest, other.get? path = tree.get? path) :
    other.trace links here rest = tree.trace links here rest := by
  induction links, here, rest using trace_induction tree with
  | nil links here => rw [trace_nil, trace_nil]
  | dot links here others ih =>
      rw [trace_dot] at h ⊢
      rw [trace_dot, ih h]
  | up links here others ih =>
      rw [trace_up] at h ⊢
      rw [trace_up, ih h]
  | long links here name others hdot hup hlong =>
      rw [trace_long hdot hup hlong, trace_long hdot hup hlong]
  | ending links here name others hname hend =>
      rw [trace_ending hname hend] at h ⊢
      have hend' : ¬ other.LeadsOn links (here ++ [name]) :=
        (leadsOn_congr (h _ (.head _))).not.mpr hend
      rw [trace_ending hname hend']
  | into links here name others hname hdir ih =>
      rw [trace_into hname hdir] at h ⊢
      have hdir' : other.HasDirectory (here ++ [name]) := by
        rwa [HasDirectory, h _ (.head _)]
      rw [trace_into hname hdir', ih fun path mem => h path (.tail _ mem)]
  | link links here name others target hname hlink ih =>
      rw [trace_link hname hlink] at h ⊢
      have hlink' := (h _ (.head _)).trans hlink
      rw [trace_link hname hlink', ih fun path mem => h path (.tail _ mem)]

/-- A walk that arrives looks at directories and links, and at the place where it ends. -/
theorem Leads.of_mem_trace (h : tree.Leads true links here rest place)
    (mem : path ∈ tree.trace links here rest) :
    tree.HasDirectory path ∨ (∃ target, tree.get? path = some (.link target)) ∨
      path = place.path := by
  induction h with
  | here _ => simp [trace_nil] at mem
  | dot _ ih => exact ih (trace_dot ▸ mem)
  | up _ ih => exact ih (trace_up ▸ mem)
  | last hname hentry hend =>
      rw [trace_ending hname (not_leadsOn_of_ending (hentry ▸ hend))] at mem
      exact .inr (.inr (List.mem_singleton.mp mem))
  | into hname hdir _ ih =>
      rw [trace_into hname hdir] at mem
      exact (List.mem_cons.mp mem).elim (fun heq => .inl (heq ▸ hdir)) ih
  | link hname hlink _ _ ih =>
      rw [trace_link hname hlink] at mem
      exact (List.mem_cons.mp mem).elim (fun heq => .inr (.inl ⟨_, heq ▸ hlink⟩)) ih

/-- Where there is no link, the names spell all places that are looked at. -/
theorem isPrefix_of_mem_trace (hplain : Path.Plain rest)
    (hno : ∀ via target, via <+: here ++ rest → tree.get? via ≠ some (.link target))
    (mem : path ∈ tree.trace links here rest) : path <+: here ++ rest := by
  induction rest generalizing here with
  | nil => simp [trace_nil] at mem
  | cons name others ih =>
      have happ : here ++ name :: others = (here ++ [name]) ++ others := by simp
      rw [happ] at hno ⊢
      obtain ⟨-, hdot, hup, -⟩ := hplain name (.head _)
      rcases Nat.lt_or_ge Path.nameLimit name.utf8ByteSize with hlong | hshort
      · simp [trace_long hdot hup hlong] at mem
      have hname : Entering name := ⟨hdot, hup, hshort⟩
      by_cases hdir : tree.HasDirectory (here ++ [name])
      · rw [trace_into hname hdir] at mem
        rcases List.mem_cons.mp mem with rfl | mem
        · exact List.prefix_append ..
        · exact ih (fun n mem => hplain n (.tail _ mem)) hno mem
      · have hend : ¬ tree.LeadsOn links (here ++ [name]) := by
          rintro (hthere | ⟨-, target, hlink⟩)
          · exact hdir hthere
          · exact hno _ target (List.prefix_append ..) hlink
        rw [trace_ending hname hend] at mem
        exact List.mem_singleton.mp mem ▸ List.prefix_append ..

/-! ### Paths that lead far -/

theorem leadsFar_eq_false_iff : tree.leadsFar text = false ↔
    ∀ place ∈ tree.trace linkLimit (tree.start text) (Path.steps text),
      (Path.text place).utf8ByteSize ≤ Path.textLimit := by
  simp [leadsFar]

theorem trace_text (tree : Tree) (hplain : Path.Plain path) :
    tree.trace linkLimit (tree.start (Path.text path)) (Path.steps (Path.text path)) =
      tree.trace linkLimit [] path := by
  rw [start_text, Path.steps_text hplain]

/-- **A path that goes on** behind one that leads far leads far. -/
theorem leadsFar_of_isPrefix (hplain : Path.Plain path) (hup : up <+: path)
    (hfar : tree.leadsFar (Path.text up) = true) : tree.leadsFar (Path.text path) = true := by
  obtain ⟨more, rfl⟩ := hup
  rw [← Bool.not_eq_false, leadsFar_eq_false_iff, trace_text tree hplain]
  rw [← Bool.not_eq_false, leadsFar_eq_false_iff,
    trace_text tree (Path.plain_append.mp hplain).1] at hfar
  exact fun hno => hfar fun place mem => hno place (mem_trace_append mem)

/-- **A path without links on the way** leads no further than it spells. -/
theorem leadsFar_direct (hplain : Path.Plain path) (hfits : path.Fits)
    (hno : ∀ via target, via <+: path → tree.get? via ≠ some (.link target)) :
    tree.leadsFar (Path.text path) = false := by
  rw [leadsFar_eq_false_iff, trace_text tree hplain]
  exact fun place mem =>
    (hfits.of_isPrefix (isPrefix_of_mem_trace hplain (by simpa using hno) mem)).2

/-- Trees in which a path leads to something over the same entries lead it equally far. -/
theorem leadsFar_congr (hhere : other.here = tree.here)
    (h : ∀ path ∈ tree.trace linkLimit (tree.start text) (Path.steps text),
      other.get? path = tree.get? path) : other.leadsFar text = tree.leadsFar text := by
  have hstart : other.start text = tree.start text := by rw [start, start, hhere]
  rw [leadsFar, leadsFar, hstart, trace_congr h]

/-- A file that is put somewhere is not on the way to what lies elsewhere. -/
theorem leadsFar_put {entry : Entry} (hpath : path ≠ []) (hfile : entry.isFile = true)
    (hfind : (tree.put path entry).find true text = .ok place) (hne : place.path ≠ path) :
    tree.leadsFar text = (tree.put path entry).leadsFar text := by
  refine leadsFar_congr rfl fun other mem => (get?_put_of_ne tree ?_ entry).symm
  rintro rfl
  have hself := get?_put_self tree hpath entry
  rcases (leads_of_find_text hfind).of_mem_trace mem with hdir | ⟨target, hlink⟩ | rfl
  · obtain ⟨mode, hmode⟩ := hasDirectory_iff.mp hdir
    obtain rfl : entry = .directory mode := by simpa [hself] using hmode
    cases hfile
  · obtain rfl : entry = .link target := by simpa [hself] using hlink
    cases hfile
  · exact hne rfl

/-! ### Places that are told -/

/-- **A real place is told** when something is found there, and its path does not lead far. -/
theorem realPath_eq_ok_iff : tree.realPath text = .ok real ↔
    (∃ entry, tree.find true text = .ok ⟨real, some entry⟩) ∧ tree.leadsFar text = false := by
  by_cases hzero : '\x00' ∈ text.toList
  · have hfind : tree.find true text = .error .zeroInName := by rw [find, if_pos (by simpa using hzero)]
    simp [realPath, hzero, hfind]
  · cases hfar : tree.leadsFar text with
    | true => simp [realPath, hzero, hfar]
    | false =>
        cases hfind : tree.find true text with
        | error fault => simp [realPath, hzero, hfar, hfind]
        | ok place =>
            obtain ⟨path, entry⟩ := place
            cases entry <;> simp [realPath, hzero, hfar, hfind]

end Workbench.Files.Tree
