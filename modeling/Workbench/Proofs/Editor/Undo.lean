/-
# Undoing edits

Every edit that can be undone remembers what the file held before it, so the history
of a place tells how it came to be what it is (`Trail`): from the newest edit to the
oldest, each one names what undoing it brings back, and the last of them ends at what
was there before the editor was used. Every request keeps this for every place, whether
it succeeds or fails (`Traced.answer`), and undoing follows the trail back.

* `Traced.run` — the trail of every place, after any requests.
* `undo_inverts_run` — **undoing is an exact inverse**: all edits of a file can be undone
  one after the other, down to what was there before all of them, and no further.
* `directory_not_undone` — the directory of a file that is made is there to stay.

The project holds no link, and there are fewer entries than there are tags of 32 digits,
so that a temporary file never gets a longer name than the one before it had.
-/

import Workbench.Proofs.Editor.Requests
import Workbench.Proofs.Project.Linkless

namespace Workbench.Editor

open Workbench.Files Workbench.Files.Tree

/-! ### Runs -/

/-- What an editor makes of its desk when it answers requests, one after the other. -/
def run (e : Editor) (desk : Desk) (requests : List Request) : Desk :=
  requests.foldl (fun desk request => (e.answer desk request).2) desk

/-- What an editor makes of its desk when it is asked some times to undo the last edit of
the same file. -/
def undone (e : Editor) (desk : Desk) (path : String) (count : Nat) : Desk :=
  e.run desk (List.replicate count (.undo path))

/-- A place is as an edit remembers it: a file with this text, or nothing. -/
def Holds (tree : Tree) (place : Path) : Option String → Prop
  | some text => ∃ mode, tree.get? place = some (.file mode (.text text))
  | none => tree.get? place = none

theorem holds_of_eq {tree : Tree} {place : Path} {mode : Nat} {previous : Option String}
    (h : tree.get? place = previous.map fun old => .file mode (.text old)) :
    Holds tree place previous := by
  cases previous with
  | none => exact h
  | some old => exact ⟨mode, h⟩

/-- What an edit remembers is no directory. -/
theorem Holds.not_directory {tree : Tree} {place : Path} {previous : Option String}
    (h : Holds tree place previous) : ¬ tree.HasDirectory place := by
  cases previous with
  | none => simp [HasDirectory, show tree.get? place = none from h]
  | some old =>
      obtain ⟨mode, hfile⟩ := h
      simp [HasDirectory, hfile, Entry.isDirectory]

/-! ### Histories -/

namespace History

variable {κ : Type} [DecidableEq κ] {h rest : History κ} {key : κ} {change : Change}

theorem pop?_eq_none_iff : h.pop? key = none ↔ h.entries key = [] := by
  simp [pop?]

theorem entries_of_pop? (hpop : h.pop? key = some (change, rest)) (other : κ) :
    h.entries other = rest.entries other ++ if other = key then [change] else [] := by
  obtain ⟨last, hlast, heq⟩ := Option.map_eq_some_iff.mp hpop
  obtain ⟨rfl, rfl⟩ : last = change ∧ _ = rest := by simpa using heq
  by_cases hother : other = key
  · subst hother
    rw [if_pos rfl, entries_put_self, List.dropLast_append_getLast? _ hlast]
  · rw [if_neg hother, entries_put_of_ne hother, List.append_nil]

end History

/-! ### Trails -/

/-- How a place came to be what it is now: the edits of it that can be undone, the newest
one first, and what was there at the start. An edited file keeps its permissions. -/
inductive Trail (start : Option Entry) : List Change → Option Entry → Prop where
  | start : Trail start [] start
  | grown : start = none → Trail start [] (some (.directory directoryMode))
  | created {older : List Change} {operation : Operation} {text : String} :
      Trail start older none →
      Trail start (⟨none, operation⟩ :: older) (some (.file fileMode (.text text)))
  | edited {older : List Change} {operation : Operation} {mode : Nat} {old text : String} :
      Trail start older (some (.file mode (.text old))) →
      Trail start (⟨some old, operation⟩ :: older) (some (.file mode (.text text)))

namespace Trail

variable {start now : Option Entry} {older changes : List Change} {change : Change}

/-- Following a trail back by one edit brings back what the edit remembers. -/
theorem back (h : Trail start (change :: older) now) :
    ∃ mode text, now = some (.file mode (.text text)) ∧
      Trail start older (change.previous.map fun old => .file mode (.text old)) := by
  cases h with
  | created holder => exact ⟨_, _, rfl, holder⟩
  | edited holder => exact ⟨_, _, rfl, holder⟩

theorem of_none (h : Trail start changes none) : start = none ∧ changes = [] := by
  cases h
  exact ⟨rfl, rfl⟩

/-- At the end of a trail is what was there at the start, unless it was nothing and has
become a directory. -/
theorem of_nil (h : Trail start [] now) :
    now = start ∨ (start = none ∧ now = some (.directory directoryMode)) := by
  cases h with
  | start => exact .inl rfl
  | grown hnone => exact .inr ⟨hnone, rfl⟩

end Trail

/-! ### Desks -/

/-- Every place of a project has a trail from what was there at the start, and the files
that were edited are within the limits of names. -/
structure Traced (e : Editor) (start : Tree) (desk : Desk) : Prop where
  linkless : e.project.Linkless desk.tree
  trail : ∀ place, Trail (start.get? place) (desk.history.entries place).reverse
    (desk.tree.get? place)
  rewritable : ∀ place, desk.history.entries place ≠ [] → Rewritable place

variable {e : Editor} {start : Tree} {desk : Desk} {place : Path} {path : String} {mode : Nat}

namespace Traced

/-- Directories that are made at free places are no edit. -/
theorem grown {inside : Path → Prop} {tree : Tree} {history : History Path}
    (h : Traced e start desk) (hgrown : Grown inside desk.tree tree)
    (hsame : ∀ place, history.entries place = desk.history.entries place) :
    Traced e start ⟨tree, history⟩ where
  linkless := h.linkless.grown hgrown
  trail place := by
    rw [hsame]
    rcases hgrown.get?_cases place with hsame | ⟨hnone, hnew, -⟩
    · rw [hsame]
      exact h.trail place
    · obtain ⟨hstart, hnil⟩ := (hnone ▸ h.trail place).of_none
      rw [hnil, hnew]
      exact .grown hstart
  rewritable place hne := h.rewritable place (hsame place ▸ hne)

theorem same (h : Traced e start desk) {history : History Path}
    (hsame : ∀ place, history.entries place = desk.history.entries place) :
    Traced e start ⟨desk.tree, history⟩ :=
  h.grown (show Grown (fun _ => True) desk.tree desk.tree from .same) hsame

/-- A file that is put at a place and remembered makes the trail there longer by one edit. -/
theorem push (h : Traced e start desk) (hr : Rewritable place)
    (hparent : desk.tree.HasDirectory place.dropLast) (hno : ¬ desk.tree.HasDirectory place)
    {change : Change} {content : Content}
    (htrail : Trail (start.get? place) (change :: (desk.history.entries place).reverse)
      (some (.file mode content))) :
    Traced e start ⟨desk.tree.put place (.file mode content), desk.history.push place change⟩ where
  linkless := h.linkless.put hr hparent hno rfl
  trail other := by
    by_cases heq : other = place
    · subst heq
      rw [History.entries_push_self, get?_put_self _ hr.ne_nil]
      simpa using htrail
    · rw [History.entries_push_of_ne _ heq, get?_put_of_ne _ heq]
      exact h.trail other
  rewritable other hne := by
    by_cases heq : other = place
    · exact heq ▸ hr
    · exact h.rewritable other (History.entries_push_of_ne desk.history heq change ▸ hne)

end Traced

/-! ### Taking an edit back -/

/-- The tree in which a file is again what an edit remembers. -/
def putBack (tree : Tree) (place : Path) (mode : Nat) : Option String → Tree
  | some text => tree.put place (.file mode (.text text))
  | none => tree.erase place

variable {tree : Tree} {content : Content}

theorem get?_putBack_self (hr : Rewritable place) (tree : Tree) (mode : Nat)
    (previous : Option String) :
    (putBack tree place mode previous).get? place =
      previous.map fun old => .file mode (.text old) := by
  cases previous with
  | some text => exact get?_put_self tree hr.ne_nil _
  | none => exact get?_erase_self tree hr.ne_nil

theorem get?_putBack_of_ne {other : Path} (hne : other ≠ place) (tree : Tree) (mode : Nat)
    (previous : Option String) :
    (putBack tree place mode previous).get? other = tree.get? other := by
  cases previous with
  | some text => exact get?_put_of_ne tree hne _
  | none => exact get?_erase_of_ne tree hne

/-- No entry comes to a tree when a file is put back. -/
theorem length_putBack (hr : Rewritable place) (hfile : tree.get? place = some (.file mode content))
    (previous : Option String) :
    (putBack tree place mode previous).entries.length ≤ tree.entries.length := by
  cases previous with
  | none => exact List.length_filter_le ..
  | some text =>
      have mem : place ∈ tree.entries.map (·.1) :=
        List.mem_map_of_mem (mem_of_get?_eq_some hr.ne_nil hfile)
      have hkeys := congrArg List.length
        (map_fst_putIn place (.file mode (.text text)) tree.entries)
      rw [if_pos mem, List.length_map, List.length_map] at hkeys
      exact hkeys.le

theorem not_directory_of_file (hfile : tree.get? place = some (.file mode content)) :
    ¬ tree.HasDirectory place := by
  simp [HasDirectory, hfile, Entry.isDirectory]

section Restore

variable {project : Project} (hl : project.Linkless tree) (hr : Rewritable place)
  (hfile : tree.get? place = some (.file mode content))

include hl hr hfile

theorem restore_none_eq : restore tree place none = (none, putBack tree place mode none) := by
  have hparent := hl.wellFormed.parent hfile
  have hfound := fun follow => hr.find_eq hl.wellFormed hparent follow (by simp [hfile])
  have hthere : tree.isThere (Path.text place) = true :=
    isThere_iff.mpr ⟨place, _, hfile ▸ hfound true⟩
  have hremove : tree.removeFile (Path.text place) = .ok (tree.erase place) := by
    simp [removeFile, hfound, hfile]
  simp [restore, hthere, hremove, putBack]

/-- Restoring a file brings back what the edit remembers, or changes nothing. -/
theorem restore_cases (hin : project.root <+: place) (previous : Option String) :
    (∃ fault, restore tree place previous = (some fault, tree)) ∨
      restore tree place previous = (none, putBack tree place mode previous) := by
  cases previous with
  | none => exact .inr (restore_none_eq hl hr hfile)
  | some text =>
      rcases hl.rewrite_cases hin hr.plain text with hfail | ⟨-, -, -, hdone⟩
      · exact .inl hfail
      · exact .inr (by simpa [restore, Editor.putBack, hfile, Entry.mode] using hdone)

/-- A file can be restored as long as there are temporary names of the usual length. -/
theorem restore_eq (hroom : tree.entries.length < 16 ^ 32) (previous : Option String) :
    restore tree place previous = (none, putBack tree place mode previous) := by
  cases previous with
  | none => exact restore_none_eq hl hr hfile
  | some text =>
      have hparent := hl.wellFormed.parent hfile
      have hmode := hr.carriedMode_eq hl.wellFormed hparent (by simp [hfile])
      have hdone := hr.rewrite_eq hl.wellFormed hparent hroom (not_directory_of_file hfile) text
      simpa [restore, putBack, hmode, hfile, Entry.mode] using hdone

end Restore

theorem linkless_putBack {project : Project} (hl : project.Linkless tree) (hr : Rewritable place)
    (hfile : tree.get? place = some (.file mode content)) (previous : Option String) :
    project.Linkless (putBack tree place mode previous) := by
  cases previous with
  | some text =>
      exact hl.put hr (hl.wellFormed.parent hfile) (not_directory_of_file hfile) rfl
  | none => exact hl.erase hr.ne_nil (not_directory_of_file hfile)

/-- **Taking the newest edit of a file back** follows its trail back by one edit. -/
theorem Traced.putBack (h : Traced e start desk) {change : Change} {history : History Path}
    (hpop : desk.history.pop? place = some (change, history)) :
    ∃ mode text, desk.tree.get? place = some (.file mode (.text text)) ∧
      Traced e start ⟨Editor.putBack desk.tree place mode change.previous, history⟩ := by
  have hentries := History.entries_of_pop? hpop
  have hplace : desk.history.entries place = history.entries place ++ [change] := by
    simpa using hentries place
  have hr : Rewritable place := h.rewritable place (by simp [hplace])
  have htrail := h.trail place
  rw [hplace, List.reverse_concat] at htrail
  obtain ⟨mode, text, hnow, hback⟩ := htrail.back
  refine ⟨mode, text, hnow, linkless_putBack h.linkless hr hnow _, fun other => ?_,
    fun other hne => ?_⟩
  · by_cases heq : other = place
    · subst heq
      rw [get?_putBack_self hr]
      exact hback
    · rw [get?_putBack_of_ne heq]
      have := hentries other
      rw [if_neg heq, List.append_nil] at this
      exact this ▸ h.trail other
  · refine h.rewritable other fun hnil => hne ?_
    have := hentries other
    simp only [hnil] at this
    exact (List.append_eq_nil_iff.mp this.symm).1

/-! ### Requests -/

namespace Traced

variable {text content : String} {operation : Operation}

/-- An accepted place lies in the project, and its names are names of entries. -/
theorem accepted (h : Traced e start desk) (hres : e.project.resolve desk.tree path = .ok place) :
    e.project.root <+: place ∧ Path.Plain place := by
  obtain ⟨up, real, hr⟩ := Project.resolve_eq_ok_iff.mp hres
  exact ⟨hr.below, hr.plain (Project.plain_root h.linkless.wellFormed h.linkless.root)⟩

/-- A text that is read is that of the file where the path spells. -/
theorem read (h : Traced e start desk) (hres : e.project.resolve desk.tree path = .ok place)
    (hread : desk.tree.readText (Path.text place) = .ok content) :
    ∃ mode, desk.tree.get? place = some (.file mode (.text content)) := by
  obtain ⟨hin, hplain⟩ := h.accepted hres
  obtain ⟨found, mode, hfind⟩ := readText_eq_ok_iff.mp hread
  obtain ⟨rfl, hentry⟩ : found = place ∧
      some (.file mode (.text content)) = desk.tree.get? place := by
    simpa using h.linkless.find_eq hin hplain hfind
  exact ⟨mode, hentry.symm⟩

/-- Nothing is at a place that is not there, even when directories have been made. -/
theorem get?_of_grown {inside : Path → Prop} {ready : Tree} (h : Traced e start desk)
    (hin : e.project.root <+: place) (hr : Rewritable place)
    (hnew : ¬ desk.tree.isThere (Path.text place) = true)
    (hgrown : Grown inside desk.tree ready) (hno : ¬ ready.HasDirectory place) :
    ready.get? place = none := by
  have hfree : desk.tree.get? place = none := by
    cases hentry : desk.tree.get? place with
    | none => rfl
    | some entry =>
        have hfound := hr.find_eq h.linkless.wellFormed (h.linkless.wellFormed.parent hentry) true
          fun target hlink => absurd hlink (h.linkless.no_link place target hin)
        exact absurd (isThere_iff.mpr ⟨place, entry, hentry ▸ hfound⟩) hnew
  rcases hgrown.get?_cases place with hsame | ⟨-, hdir, -⟩
  · rw [hsame, hfree]
  · exact absurd (hasDirectory_iff.mpr ⟨_, hdir⟩) hno

theorem create (h : Traced e start desk) : Traced e start (e.create desk path text).2 := by
  unfold Editor.create
  split
  · exact h
  · next place hres =>
      rw [resolve_eq_ok_iff] at hres
      obtain ⟨hin, hplain⟩ := h.accepted hres
      split
      · exact h
      · next hnew =>
          cases hmake : desk.tree.makeDirectories place.dropLast.reverse with
          | mk outcome ready =>
              have hgrown := makeDirectories_grown_anywhere h.linkless.wellFormed
                hplain.dropLast hmake
              have hready : Traced e start ⟨ready, desk.history⟩ := h.grown hgrown fun _ => rfl
              cases outcome with
              | some fault => exact hready
              | none =>
                  rcases hready.linkless.rewrite_cases hin hplain text with
                    ⟨fault, hfail⟩ | ⟨hr, hparent, hno, hdone⟩
                  · simp only [hfail]
                    exact hready
                  · have hfree := h.get?_of_grown hin hr hnew hgrown hno
                    simp only [hdone, hfree, Option.map_none, Option.getD_none]
                    exact hready.push hr hparent hno (.created (hfree ▸ hready.trail place))

/-- A text that was read and rewritten is remembered. -/
theorem commit (h : Traced e start desk) (hres : e.project.resolve desk.tree path = .ok place)
    (hread : desk.tree.readText (Path.text place) = .ok content) (updated : List Char)
    (first span : Nat) :
    Traced e start (e.commit desk path place operation content updated first span).2 := by
  obtain ⟨hin, hplain⟩ := h.accepted hres
  obtain ⟨mode, hfile⟩ := h.read hres hread
  have htrail := h.trail place
  rw [hfile] at htrail
  unfold Editor.commit
  rcases h.linkless.rewrite_cases hin hplain (String.ofList updated) with
    ⟨fault, hfail⟩ | ⟨hr, hparent, hno, hdone⟩
  · simp only [hfail]
    exact h.same fun _ => rfl
  · simp only [hdone, hfile, Option.map_some, Option.getD_some, Entry.mode]
    exact h.push hr hparent hno (.edited htrail)

theorem replace (h : Traced e start desk) {old new : String} :
    Traced e start (e.replace desk path old new).2 := by
  unfold Editor.replace
  split
  · exact h
  · next hfound =>
      obtain ⟨hres, hread⟩ := findReplacement_ok hfound
      exact h.commit hres hread ..

theorem insert (h : Traced e start desk) {line : Int} :
    Traced e start (e.insert desk path line text).2 := by
  unfold Editor.insert
  split
  · exact h
  · next hfound =>
      obtain ⟨hres, hread⟩ := findInsertion_ok hfound
      exact h.commit hres hread ..

theorem undo (h : Traced e start desk) : Traced e start (e.undo desk path).2 := by
  unfold Editor.undo
  split
  · exact h
  · next place hres =>
      rw [resolve_eq_ok_iff] at hres
      obtain ⟨hin, hplain⟩ := h.accepted hres
      split
      · exact h
      · next change history hpop =>
          obtain ⟨mode, text, hfile, hback⟩ := h.putBack hpop
          have hentries := History.entries_of_pop? hpop
          have hr : Rewritable place := h.rewritable place (by simp [hentries place])
          rcases restore_cases h.linkless hr hfile hin change.previous with ⟨fault, hfail⟩ | hdone
          · simp only [hfail]
            refine h.same fun other => ?_
            by_cases heq : other = place
            · subst heq
              rw [History.entries_push_self, hentries other, if_pos rfl]
            · rw [History.entries_push_of_ne _ heq, hentries other, if_neg heq, List.append_nil]
          · simp only [hdone]
            exact hback

/-- **Every request keeps the trails**, whether it succeeds or fails. -/
theorem answer (h : Traced e start desk) (request : Request) :
    Traced e start (e.answer desk request).2 := by
  cases request with
  | view => exact h
  | viewDirectory => exact h
  | create => exact h.create
  | replace => exact h.replace
  | insert => exact h.insert
  | undo => exact h.undo

/-- Every place has its trail after any requests. -/
theorem run (h : Traced e start desk) (requests : List Request) :
    Traced e start (e.run desk requests) := by
  induction requests generalizing desk with
  | nil => exact h
  | cons request requests ih => exact ih (h.answer request)

end Traced

/-! ### Undoing everything -/

theorem undone_succ (e : Editor) (desk : Desk) (path : String) (count : Nat) :
    e.undone desk path (count + 1) = e.undone (e.undo desk path).2 path count := rfl

theorem undo_of_nil (hres : e.project.resolve desk.tree path = .ok place)
    (hnil : desk.history.entries place = []) :
    e.undo desk path = (.error (.noHistory path), desk) := by
  simp only [Editor.undo, resolve_eq_ok_iff.mpr hres, History.pop?_eq_none_iff.mpr hnil]

section Undoing

variable (h : Traced e start desk) (hres : e.project.resolve desk.tree path = .ok place)
  (hroom : desk.tree.entries.length < 16 ^ 32)

include h hres hroom

/-- The newest edit of a file can be undone, which brings back what it remembers. -/
theorem undo_of_concat {older : List Change} {change : Change}
    (hchanges : desk.history.entries place = older ++ [change]) :
    ∃ message after, e.undo desk path = (.ok message, after) ∧
      Holds after.tree place change.previous ∧ after.history.entries place = older ∧
      after.tree.entries.length < 16 ^ 32 := by
  cases hpop : desk.history.pop? place with
  | none => simp [History.pop?_eq_none_iff.mp hpop] at hchanges
  | some popped =>
      obtain ⟨newest, history⟩ := popped
      have hentries := History.entries_of_pop? hpop place
      obtain ⟨rfl, rfl⟩ : older = history.entries place ∧ change = newest := by
        simpa [hchanges] using hentries
      have hr : Rewritable place := h.rewritable place (by simp [hchanges])
      obtain ⟨mode, text, hfile, -⟩ := h.putBack hpop
      have hdone := restore_eq h.linkless hr hfile hroom change.previous
      refine ⟨e.undoneText place change.previous,
        ⟨putBack desk.tree place mode change.previous, history⟩, ?_, ?_, rfl,
        (length_putBack hr hfile change.previous).trans_lt hroom⟩
      · simp only [Editor.undo, resolve_eq_ok_iff.mpr hres, hpop, hdone]
      · exact holds_of_eq (get?_putBack_self hr desk.tree mode change.previous)

end Undoing

/-- All edits of a file can be undone, and each time the file is what the edit remembers. -/
theorem undone_spec (h : Traced e start desk)
    (hres : e.project.resolve desk.tree path = .ok place)
    (hroom : desk.tree.entries.length < 16 ^ 32) {changes : List Change}
    (hchanges : desk.history.entries place = changes.reverse) :
    (∀ k change, changes[k]? = some change →
      (∃ message, (e.undo (e.undone desk path k) path).1 = .ok message) ∧
      Holds (e.undone desk path (k + 1)).tree place change.previous) ∧
    (e.undone desk path changes.length).history.entries place = [] ∧
    e.project.resolve (e.undone desk path changes.length).tree path = .ok place ∧
    Traced e start (e.undone desk path changes.length) := by
  induction changes generalizing desk with
  | nil => exact ⟨by simp, hchanges, hres, h⟩
  | cons newest changes ih =>
      rw [List.reverse_cons] at hchanges
      obtain ⟨message, after, hundo, hholds, holder, hlength⟩ :=
        undo_of_concat h hres hroom hchanges
      have hafter : Traced e start after := by
        have := h.answer (.undo path)
        rwa [answer, hundo] at this
      have hresAfter := h.linkless.resolve_of_resolve hafter.linkless hres
      obtain ⟨heach, hend⟩ := ih hafter hresAfter hlength holder
      simp only [List.length_cons, undone_succ, hundo]
      refine ⟨fun k change hk => ?_, hend⟩
      cases k with
      | zero =>
          obtain rfl : newest = change := by simpa using hk
          exact ⟨⟨message, congrArg Prod.fst hundo⟩, hholds⟩
      | succ k =>
          have := heach k change (by simpa using hk)
          rw [undone_succ, hundo]
          exact this

theorem Traced.empty {tree : Tree} (linkless : e.project.Linkless tree) :
    Traced e tree ⟨tree, .empty⟩ where
  linkless := linkless
  trail _ := .start
  rewritable _ hne := absurd rfl hne

/-- **Undoing is an exact inverse** of any requests on a project without links. All edits
of a file that are remembered can be undone one after the other, and each time the file is
what the newest of them remembers. In the end it is what it was before all requests, bytes
and permissions (a place that was never edited may have become a directory on the way to
another file), and one more request to undo fails and changes nothing. -/
theorem undo_inverts_run {tree : Tree} (linkless : e.project.Linkless tree)
    (requests : List Request)
    (room : (e.run ⟨tree, .empty⟩ requests).tree.entries.length < 16 ^ 32)
    (named : e.resolve (e.run ⟨tree, .empty⟩ requests).tree path = .ok place) :
    let final := e.run ⟨tree, .empty⟩ requests
    let changes := final.history.entries place
    (∀ k change, changes.reverse[k]? = some change →
      (∃ message, (e.undo (e.undone final path k) path).1 = .ok message) ∧
      Holds (e.undone final path (k + 1)).tree place change.previous) ∧
    ((e.undone final path changes.length).tree.get? place = tree.get? place ∨
      (changes = [] ∧ tree.get? place = none ∧
        final.tree.get? place = some (.directory directoryMode))) ∧
    e.undo (e.undone final path changes.length) path =
      (.error (.noHistory path), e.undone final path changes.length) := by
  intro final changes
  have hfinal : Traced e tree final := (Traced.empty linkless).run requests
  obtain ⟨heach, hnil, hres, hend⟩ := undone_spec hfinal (resolve_eq_ok_iff.mp named) room
    (changes.reverse_reverse.symm : final.history.entries place = changes.reverse.reverse)
  rw [List.length_reverse] at hnil hres hend
  refine ⟨heach, ?_, undo_of_nil hres hnil⟩
  have htrail := hend.trail place
  rw [hnil] at htrail
  rcases htrail.of_nil with hsame | ⟨hnone, hdir⟩
  · exact .inl hsame
  · have hempty : changes = [] := by
      by_contra hne
      -- The oldest edit brought back a file or nothing, and that is no directory.
      obtain ⟨count, hcount⟩ := Nat.exists_eq_succ_of_ne_zero
        (fun h => hne (List.length_eq_zero_iff.mp h) : changes.length ≠ 0)
      obtain ⟨oldest, holdest⟩ : ∃ oldest, changes.reverse[count]? = some oldest :=
        ⟨_, List.getElem?_eq_getElem (by
          rw [List.length_reverse, hcount]
          exact Nat.lt_succ_self _)⟩
      have := (heach count oldest holdest).2.not_directory
      rw [hcount] at hdir
      exact this (hasDirectory_iff.mpr ⟨_, hdir⟩)
    rw [hempty] at hdir
    exact .inr ⟨hempty, hnone, hdir⟩

/-- An editor of a project. -/
def sampleEditor : Editor := ⟨⟨["p"], "p", none⟩, {}⟩

/-- A project with one file, which only its owner may read. -/
def sampleTree : Tree :=
  ⟨[(["p"], .directory 0o755), (["p", "a"], .file 0o600 (.text "one\n"))], []⟩

/-- Requests that edit a file twice, fail once, and make another file and take it back. -/
def sampleRequests : List Request :=
  [.replace "a" "one" "two", .insert "a" 9 "x", .insert "a" 1 "more", .create "b/c" "new",
    .undo "b/c"]

theorem undo_inverts_sampleRequests :
    let final := sampleEditor.run ⟨sampleTree, .empty⟩ sampleRequests
    let changes := final.history.entries ["p", "a"]
    changes.length = 2 ∧
    (∀ k change, changes.reverse[k]? = some change →
      (∃ message, (sampleEditor.undo (sampleEditor.undone final "a" k) "a").1 = .ok message) ∧
      Holds (sampleEditor.undone final "a" (k + 1)).tree ["p", "a"] change.previous) ∧
    ((sampleEditor.undone final "a" changes.length).tree.get? ["p", "a"] =
        sampleTree.get? ["p", "a"] ∨
      (changes = [] ∧ sampleTree.get? ["p", "a"] = none ∧
        final.tree.get? ["p", "a"] = some (.directory directoryMode))) ∧
    sampleEditor.undo (sampleEditor.undone final "a" changes.length) "a" =
      (.error (.noHistory "a"), sampleEditor.undone final "a" changes.length) :=
  ⟨by decide +kernel,
    undo_inverts_run (by decide) sampleRequests (by decide +kernel) (by decide +kernel)⟩

/-- **A directory on the way to a file** that is made is not what it was, and no edit of it is
remembered that could be undone. -/
theorem directory_not_undone :
    let final := sampleEditor.run ⟨sampleTree, .empty⟩ [.create "b/c" "new"]
    sampleEditor.project.Linkless sampleTree ∧
    sampleEditor.resolve final.tree "b" = .ok ["p", "b"] ∧
    final.history.entries ["p", "b"] = [] ∧
    (sampleEditor.undone final "b" 0).tree.get? ["p", "b"] = some (.directory directoryMode) ∧
    sampleTree.get? ["p", "b"] = none := by
  decide +kernel

end Workbench.Editor
