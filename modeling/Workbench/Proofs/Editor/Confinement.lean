/-
# Confinement

An editor works inside its project: what lies elsewhere it neither shows nor changes, with
one exception. A path is accepted by where it really leads, but a file is rewritten by
moving a new one to where the last name of the path stands, and a link there is not
followed. So a link that lies elsewhere and leads back into the project is replaced by the
file, or removed when the edit is undone.

* `rewrite_outside`, `restore_outside` — what writing at an accepted place changes elsewhere.
* `answer_masked` — **what is answered** does not depend on what files elsewhere hold.
* `answer_confined` — **confinement**: what a request changes elsewhere, what it depends
  on, and which paths are refused.
-/

import Workbench.Proofs.Editor.Undo
import Workbench.Proofs.Files.Mask

namespace Workbench.Editor

open Workbench.Files Workbench.Files.Tree

/-- The path that a request gives. -/
def Request.path : Request → String
  | view path _ => path
  | viewDirectory path _ => path
  | create path _ => path
  | replace path _ _ => path
  | insert path _ _ => path
  | undo path => path

/-- A request writes where a file is, or was. -/
def Request.writesBack : Request → Bool
  | replace .. => true
  | insert .. => true
  | undo .. => true
  | _ => false

/-- A desk as one sees it who may not read files outside a directory. -/
def Desk.masked (root : Path) (desk : Desk) : Desk :=
  ⟨desk.tree.masked root, desk.history⟩

@[simp] theorem Desk.tree_masked (root : Path) (desk : Desk) :
    (desk.masked root).tree = desk.tree.masked root := rfl

@[simp] theorem Desk.history_masked (root : Path) (desk : Desk) :
    (desk.masked root).history = desk.history := rfl

@[simp] theorem Desk.masked_masked (root : Path) (desk : Desk) :
    (desk.masked root).masked root = desk.masked root := by
  simp [masked]

@[simp] theorem Desk.masked_mk (root : Path) (tree : Tree) (history : History Path) :
    Desk.masked root ⟨tree.masked root, history⟩ = Desk.masked root ⟨tree, history⟩ := by
  simp [masked]

variable {e : Editor} {desk : Desk} {tree : Tree} {project : Project} {place other : Path}
  {path text content : String} {operation : Operation}

/-! ### What is changed elsewhere -/

section Outside

variable (hwf : tree.WellFormed) (hroot : tree.HasDirectory project.root)
  (hres : project.resolve tree path = .ok place)

include hwf hroot hres

/-- The names of an accepted place are names of entries. -/
theorem plain_of_resolve : Path.Plain place := by
  obtain ⟨up, real, hr⟩ := Project.resolve_eq_ok_iff.mp hres
  exact hr.plain (Project.plain_root hwf hroot)

variable (hstays : ¬ project.Strays tree path) (hout : ¬ project.root <+: other)

include hstays hout

/-- What the last name of an accepted place stands for elsewhere is a link that leads back. -/
theorem link_of_find_outside {entry : Option Entry}
    (hfind : tree.find false (Path.text place) = .ok ⟨other, entry⟩) :
    tree.isThere (Path.text place) = true ∧ ∃ target, entry = some (.link target) := by
  obtain ⟨up, real, hr⟩ := Project.resolve_eq_ok_iff.mp hres
  exact (hr.inside_or_link (hr.inside_of_not_strays hstays) hwf
    (plain_of_resolve hwf hroot hres) hfind).resolve_left hout

/-- **Writing at an accepted place** changes elsewhere only a link that is replaced. -/
theorem rewrite_outside (s : String) :
    (tree.rewrite place s).2.get? other ≠ tree.get? other ↔
      (tree.rewrite place s).1 = none ∧
        ∃ target, tree.find false (Path.text place) = .ok ⟨other, some (.link target)⟩ := by
  have hplain := plain_of_resolve hwf hroot hres
  rcases rewrite_cases hwf hplain s with ⟨fault, hfail⟩ | ⟨base, found, -, hfind, -, hdone⟩
  · simp [hfail]
  · rw [hdone]
    constructor
    · intro hchanged
      obtain rfl : other = found.path := by
        by_contra hne
        exact hchanged (get?_put_of_ne tree hne _)
      obtain ⟨-, target, hlink⟩ := link_of_find_outside hwf hroot hres hstays hout hfind
      exact ⟨rfl, target, by rw [hfind, ← hlink]⟩
    · rintro ⟨-, target, hlink⟩
      obtain rfl : found = ⟨other, some (.link target)⟩ := by simpa [hlink] using hfind.symm
      have hentry : tree.get? other = some (.link target) := (leads_of_find hplain hfind).entry_eq
      have hne : other ≠ [] := by
        rintro rfl
        simp at hentry
      simp [get?_put_self tree hne, hentry]

/-- **Restoring the file at an accepted place** changes elsewhere only a link. -/
theorem restore_outside (previous : Option String) :
    (restore tree place previous).2.get? other ≠ tree.get? other ↔
      (restore tree place previous).1 = none ∧
        ∃ target, tree.find false (Path.text place) = .ok ⟨other, some (.link target)⟩ := by
  cases previous with
  | some text => exact rewrite_outside hwf hroot hres hstays hout text
  | none =>
      have hplain := plain_of_resolve hwf hroot hres
      unfold restore
      by_cases hthere : tree.isThere (Path.text place) = true
      · cases hremove : tree.removeFile (Path.text place) with
        | error fault => simp [hthere]
        | ok without =>
            obtain ⟨found, entry, hfind, -, rfl⟩ := removeFile_eq_ok_iff.mp hremove
            simp only [hthere, if_true, true_and]
            constructor
            · intro hchanged
              obtain rfl : other = found := by
                by_contra hne
                exact hchanged (get?_erase_of_ne tree hne)
              obtain ⟨-, target, hlink⟩ := link_of_find_outside hwf hroot hres hstays hout hfind
              exact ⟨target, by rw [hfind, hlink]⟩
            · rintro ⟨target, hlink⟩
              obtain ⟨rfl, rfl⟩ : found = other ∧ entry = .link target := by
                simpa [hlink, eq_comm] using hfind
              have hentry : tree.get? found = some (.link target) :=
                (leads_of_find hplain hfind).entry_eq
              have hne : found ≠ [] := by
                rintro rfl
                simp at hentry
              simp [get?_erase_self tree hne, hentry]
      · have hno : ∀ target, tree.find false (Path.text place) ≠ .ok ⟨other, some (.link target)⟩ :=
          fun target hlink => hthere (link_of_find_outside hwf hroot hres hstays hout hlink).1
        simp [hthere, hno]

end Outside

/-- What a request changes elsewhere: when it writes where a file was, a link there. -/
def ChangesLink (e : Editor) (desk : Desk) (request : Request) (other : Path) : Prop :=
  request.writesBack ∧ (∃ message, (e.answer desk request).1 = .ok message) ∧
    e.project.EndsAtLink desk.tree request.path other

section Requests

variable (hwf : desk.tree.WellFormed) (hroot : desk.tree.HasDirectory e.project.root)
  (hstays : ¬ e.project.Strays desk.tree path) (hout : ¬ e.project.root <+: other)

include hwf hroot hstays hout

/-- A file is made in the project, and so are the directories on the way to it. -/
theorem create_outside : (e.create desk path text).2.tree.get? other = desk.tree.get? other := by
  unfold create
  split
  · rfl
  · next place hres =>
      rw [resolve_eq_ok_iff] at hres
      have hplain := plain_of_resolve hwf hroot hres
      obtain ⟨up, real, hr⟩ := Project.resolve_eq_ok_iff.mp hres
      have hin := hr.inside_of_not_strays hstays
      split
      · rfl
      · next hnew =>
          cases hmake : desk.tree.makeDirectories place.dropLast.reverse with
          | mk outcome ready =>
              obtain ⟨hgrown, harrived⟩ := makeDirectories_grown hwf hplain.dropLast
                ((hr.anchored hin hwf hplain).of_isPrefix (List.dropLast_prefix place)) hmake
              have hready : ready.get? other = desk.tree.get? other :=
                (hgrown.get?_cases other).resolve_right fun h => hout h.2.2
              cases outcome with
              | some fault => exact hready
              | none =>
                  rcases rewrite_cases (hgrown.wellFormed hwf) hplain text with
                    ⟨fault, hfail⟩ | ⟨-, found, -, hfind, -, hdone⟩
                  · simp only [hfail]
                    exact hready
                  · simp only [hdone]
                    refine (get?_put_of_ne ready ?_ _).trans hready
                    rintro rfl
                    exact hout (hr.inside_of_arrived hin hwf hplain (by simpa using hnew)
                      (hgrown.wellFormed hwf) (harrived rfl) hfind)

theorem commit_outside (hres : e.project.resolve desk.tree path = .ok place)
    (updated : List Char) (first span : Nat) :
    (e.commit desk path place operation content updated first span).2.tree.get? other ≠
        desk.tree.get? other ↔
      (∃ message, (e.commit desk path place operation content updated first span).1 = .ok message) ∧
        e.project.EndsAtLink desk.tree path other := by
  have h := rewrite_outside hwf hroot hres hstays hout (String.ofList updated)
  rw [Project.endsAtLink_iff hres]
  unfold commit
  cases hrewrite : desk.tree.rewrite place (String.ofList updated) with
  | mk outcome after =>
      rw [hrewrite] at h
      cases outcome with
      | some fault => simpa using h
      | none => simpa using h

omit hstays in
/-- **What a request changes elsewhere** is a link that leads back into the project, if its
path does not stray. -/
theorem answer_outside (request : Request)
    (hstays : ¬ e.project.Strays desk.tree request.path) :
    (e.answer desk request).2.tree.get? other ≠ desk.tree.get? other ↔
      e.ChangesLink desk request other := by
  cases request with
  | view => simp [ChangesLink, answer, Request.writesBack]
  | viewDirectory => simp [ChangesLink, answer, Request.writesBack]
  | create path text =>
      simp only [Request.path] at hstays
      simp [ChangesLink, answer, Request.writesBack, create_outside hwf hroot hstays hout]
  | replace path old new =>
      simp only [ChangesLink, answer, Request.writesBack, Request.path, replace, true_and]
      split
      · simp
      · next hfound => exact commit_outside hwf hroot hstays hout (findReplacement_ok hfound).1 ..
  | insert path line text =>
      simp only [ChangesLink, answer, Request.writesBack, Request.path, insert, true_and]
      split
      · simp
      · next hfound => exact commit_outside hwf hroot hstays hout (findInsertion_ok hfound).1 ..
  | undo path =>
      simp only [ChangesLink, answer, Request.writesBack, Request.path, undo, true_and]
      split
      · simp
      · next place hres =>
          rw [resolve_eq_ok_iff] at hres
          rw [Project.endsAtLink_iff hres]
          split
          · simp
          · next change history hpop =>
              have h := restore_outside hwf hroot hres hstays hout change.previous
              cases hrestore : restore desk.tree place change.previous with
              | mk outcome after =>
                  rw [hrestore] at h
                  cases outcome with
                  | some fault => simpa using h
                  | none => simpa using h

end Requests

/-! ### What is answered -/

section Masked

variable (hwf : desk.tree.WellFormed) (hroot : desk.tree.HasDirectory e.project.root)

theorem resolve_masked (e : Editor) (tree : Tree) (root : Path) (path : String) :
    e.resolve (tree.masked root) path = e.resolve tree path := by
  simp only [resolve, Files.Tree.resolve_masked]

theorem resolveThere_masked (e : Editor) (tree : Tree) (root : Path) (path : String) :
    e.resolveThere (tree.masked root) path = e.resolveThere tree path := by
  simp only [resolveThere, resolve_masked, isThere_masked]

theorem resolveFile_masked (e : Editor) (tree : Tree) (root : Path) (path : String) :
    e.resolveFile (tree.masked root) path = e.resolveFile tree path := by
  simp only [resolveFile, resolveThere_masked, isDirectory_masked]

/-- What is read at an accepted place is read in the project. -/
theorem readFile_masked (hstays : ¬ e.project.Strays tree path)
    (hthere : e.resolveThere tree path = .ok place) :
    readFile (tree.masked e.project.root) path place = readFile tree path place := by
  obtain ⟨hres, hthere⟩ := resolveThere_eq_ok_iff.mp hthere
  obtain ⟨up, real, hr⟩ := Project.resolve_eq_ok_iff.mp hres
  obtain ⟨entry, hfind⟩ := hr.find_eq hthere
  simp only [readFile, readText_masked (hr.inside_of_not_strays hstays) hfind]

theorem directoryText_masked (e : Editor) (tree : Tree) (root : Path) :
    e.directoryText (tree.masked root) place = e.directoryText tree place := by
  unfold directoryText
  extract_lets depth
  rw [levels_masked]

theorem view_masked (hstays : ¬ e.project.Strays tree path) (range : Option (Int × Int)) :
    e.view (tree.masked e.project.root) path range = e.view tree path range := by
  unfold view
  rw [resolveThere_masked]
  cases h : e.resolveThere tree path with
  | error refusal => simp only [Attempt.error_bind]
  | ok place =>
      simp only [Attempt.ok_bind, isDirectory_masked, directoryText_masked, readFile_masked hstays h]

theorem viewDirectory_masked (e : Editor) (tree : Tree) (path : String) (depth : Option Nat) :
    e.viewDirectory (tree.masked e.project.root) path depth = e.viewDirectory tree path depth := by
  simp only [viewDirectory, resolveThere_masked, isDirectory_masked, list_masked]

theorem findReplacement_masked (hstays : ¬ e.project.Strays tree path) (old new : String) :
    e.findReplacement (tree.masked e.project.root) path old new =
      e.findReplacement tree path old new := by
  simp only [findReplacement, resolveFile_masked]
  cases h : e.resolveFile tree path with
  | error refusal => simp only [Attempt.error_bind]
  | ok place =>
      obtain ⟨hres, hthere, -⟩ := resolveFile_eq_ok_iff.mp h
      simp only [Attempt.ok_bind, readFile_masked hstays (resolveThere_eq_ok_iff.mpr ⟨hres, hthere⟩)]

theorem findInsertion_masked (hstays : ¬ e.project.Strays tree path) (line : Int) :
    e.findInsertion (tree.masked e.project.root) path line = e.findInsertion tree path line := by
  simp only [findInsertion, resolveFile_masked]
  cases h : e.resolveFile tree path with
  | error refusal => simp only [Attempt.error_bind]
  | ok place =>
      obtain ⟨hres, hthere, -⟩ := resolveFile_eq_ok_iff.mp h
      simp only [Attempt.ok_bind, readFile_masked hstays (resolveThere_eq_ok_iff.mpr ⟨hres, hthere⟩)]

theorem restore_masked (hwf : tree.WellFormed) (hplain : Path.Plain place) (root : Path)
    (previous : Option String) :
    (restore (tree.masked root) place previous).map id (Tree.masked root) =
      (restore tree place previous).map id (Tree.masked root) := by
  cases previous with
  | some text => exact rewrite_masked hwf hplain root text
  | none =>
      simp only [restore, isThere_masked, removeFile_masked]
      split
      · cases tree.removeFile (Path.text place) <;> simp [Except.map]
      · simp

theorem commit_masked (hwf : desk.tree.WellFormed) (hplain : Path.Plain place) (root : Path)
    (updated : List Char) (first span : Nat) :
    (e.commit (desk.masked root) path place operation content updated first span).map id
        (Desk.masked root) =
      (e.commit desk path place operation content updated first span).map id
        (Desk.masked root) := by
  have h := rewrite_masked hwf hplain root (String.ofList updated)
  unfold commit
  cases hseen : (desk.tree.masked root).rewrite place (String.ofList updated) with
  | mk outcome seen =>
      cases hreal : desk.tree.rewrite place (String.ofList updated) with
      | mk outcome' real =>
          obtain ⟨rfl, hsame⟩ : outcome = outcome' ∧ seen.masked root = real.masked root := by
            simpa [hseen, hreal] using h
          cases outcome <;> simp [Desk.masked, hseen, hsame]

include hwf hroot

theorem create_masked (path text : String) :
    (e.create (desk.masked e.project.root) path text).map id (Desk.masked e.project.root) =
      (e.create desk path text).map id (Desk.masked e.project.root) := by
  unfold create
  simp only [Desk.tree_masked, Desk.history_masked, resolve_masked, isThere_masked,
    makeDirectories_masked]
  cases hres : e.resolve desk.tree path with
  | error refusal => simp
  | ok place =>
      have hplain := plain_of_resolve hwf hroot (resolve_eq_ok_iff.mp hres)
      simp only
      split
      · simp
      · cases hmake : desk.tree.makeDirectories place.dropLast.reverse with
        | mk outcome ready =>
            cases outcome with
            | some fault => simp
            | none =>
                have hready : ready.WellFormed :=
                  (makeDirectories_grown_anywhere hwf hplain.dropLast hmake).wellFormed hwf
                have h := rewrite_masked hready hplain e.project.root text
                cases hseen : (ready.masked e.project.root).rewrite place text with
                | mk outcome seen =>
                    cases hreal : ready.rewrite place text with
                    | mk outcome' real =>
                        obtain ⟨rfl, hsame⟩ : outcome = outcome' ∧
                            seen.masked e.project.root = real.masked e.project.root := by
                          simpa [hseen, hreal] using h
                        cases outcome <;> simp [Desk.masked, hseen, hreal, hsame]

theorem undo_masked (path : String) :
    (e.undo (desk.masked e.project.root) path).map id (Desk.masked e.project.root) =
      (e.undo desk path).map id (Desk.masked e.project.root) := by
  unfold undo
  simp only [Desk.tree_masked, Desk.history_masked, resolve_masked]
  cases hres : e.resolve desk.tree path with
  | error refusal => simp
  | ok place =>
      have hplain := plain_of_resolve hwf hroot (resolve_eq_ok_iff.mp hres)
      simp only
      cases hpop : desk.history.pop? place with
      | none => simp
      | some popped =>
          obtain ⟨change, history⟩ := popped
          have h := restore_masked hwf hplain e.project.root change.previous
          cases hseen : restore (desk.tree.masked e.project.root) place change.previous with
          | mk outcome seen =>
              cases hreal : restore desk.tree place change.previous with
              | mk outcome' real =>
                  obtain ⟨rfl, hsame⟩ : outcome = outcome' ∧
                      seen.masked e.project.root = real.masked e.project.root := by
                    simpa [hseen, hreal] using h
                  cases outcome <;> simp [Desk.masked, hseen, hreal, hsame]

/-- **What is answered** at a path that does not stray does not depend on what files
elsewhere hold, and what is done does not either, as far as the mask shows. -/
theorem answer_masked (request : Request)
    (hstays : ¬ e.project.Strays desk.tree request.path) :
    (e.answer (desk.masked e.project.root) request).map id (Desk.masked e.project.root) =
      (e.answer desk request).map id (Desk.masked e.project.root) := by
  cases request with
  | view path range =>
      simp only [Request.path] at hstays
      simp [answer, view_masked hstays]
  | viewDirectory => simp [answer, viewDirectory_masked]
  | create path text => exact create_masked hwf hroot path text
  | replace path old new =>
      simp only [Request.path] at hstays
      simp only [answer, replace, Desk.tree_masked, findReplacement_masked hstays]
      split
      · simp
      · next hfound =>
          obtain ⟨hres, -⟩ := findReplacement_ok hfound
          exact commit_masked hwf (plain_of_resolve hwf hroot hres) ..
  | insert path line text =>
      simp only [Request.path] at hstays
      simp only [answer, insert, Desk.tree_masked, findInsertion_masked hstays]
      split
      · simp
      · next hfound =>
          obtain ⟨hres, -⟩ := findInsertion_ok hfound
          exact commit_masked hwf (plain_of_resolve hwf hroot hres) ..
  | undo path => exact undo_masked hwf hroot path

end Masked

/-! ### Refused paths -/

/-- An attempt does not end with the refusal of a path that leads out. -/
def Admits {α : Type} (attempt : Except Refusal α) : Prop :=
  ∀ escape, attempt ≠ .error (.escape escape)

theorem Admits.bind {α β : Type} {attempt : Except Refusal α} {next : α → Except Refusal β}
    (h : Admits attempt) (hnext : ∀ a, Admits (next a)) : Admits (attempt >>= next) := by
  cases attempt with
  | ok a => exact hnext a
  | error refusal => exact fun escape heq => h escape (by simpa using heq)

@[simp] theorem admits_ok {α : Type} (a : α) : Admits (.ok a) := by
  simp [Admits]

@[simp] theorem admits_error_iff {α : Type} {refusal : Refusal} :
    Admits (.error refusal : Except Refusal α) ↔ ∀ escape, refusal ≠ .escape escape := by
  simp [Admits]

section Admitted

variable (hres : e.resolve tree path = .ok place)

theorem admits_readFile (tree : Tree) (path : String) (place : Path) :
    Admits (readFile tree path place) := by
  intro escape h
  obtain ⟨fault, -, hfault⟩ := Attempt.mapError_eq_error_iff.mp h
  cases hfault

theorem admits_numbered (content : String) (range : Option (Int × Int)) :
    Admits (numbered content range) := by
  unfold numbered
  split
  · simp
  · dsimp only
    split <;> simp

theorem admits_uniqueOccurrence (path old content : String) :
    Admits (uniqueOccurrence path old content) := by
  unfold uniqueOccurrence
  split <;> simp

include hres

theorem admits_resolveThere : Admits (e.resolveThere tree path) := by
  rw [resolveThere, hres, Attempt.ok_bind]
  split <;> simp

theorem admits_resolveFile : Admits (e.resolveFile tree path) :=
  (admits_resolveThere hres).bind fun _ => by split <;> simp

theorem admits_view (range : Option (Int × Int)) : Admits (e.view tree path range) := by
  refine (admits_resolveThere hres).bind fun found => ?_
  split
  · split <;> simp
  · exact (admits_readFile _ _ _).bind fun content => (admits_numbered _ _).bind fun _ => admits_ok _

theorem admits_viewDirectory (depth : Option Nat) : Admits (e.viewDirectory tree path depth) :=
  (admits_resolveThere hres).bind fun _ => by split <;> simp

theorem admits_findReplacement (old new : String) :
    Admits (e.findReplacement tree path old new) := by
  refine (admits_resolveFile hres).bind fun found => ?_
  by_cases hempty : old = ""
  · simp [if_pos hempty]
  by_cases hsame : old = new
  · simp [if_neg hempty, if_pos hsame]
  · simp only [if_neg hempty, if_neg hsame]
    exact (admits_readFile _ _ _).bind fun content =>
      (admits_uniqueOccurrence _ _ _).bind fun _ => admits_ok _

theorem admits_findInsertion (line : Int) : Admits (e.findInsertion tree path line) :=
  (admits_resolveFile hres).bind fun _ => (admits_readFile _ _ _).bind fun _ => by
    dsimp only
    split <;> simp

end Admitted

theorem admits_commit (e : Editor) (desk : Desk) (path : String) (place : Path)
    (operation : Operation) (content : String) (updated : List Char) (first span : Nat) :
    Admits (e.commit desk path place operation content updated first span).1 := by
  unfold commit
  split <;> simp

/-- **A request at an accepted path** is not refused as one that leads out. -/
theorem admits_answer {request : Request} (hres : e.resolve desk.tree request.path = .ok place) :
    Admits (e.answer desk request).1 := by
  cases request with
  | view path range => exact admits_view hres range
  | viewDirectory path depth => exact admits_viewDirectory hres depth
  | create path text =>
      simp only [Request.path] at hres
      simp only [answer, create, hres]
      split
      · simp
      · split
        · simp
        · split <;> simp
  | replace path old new =>
      have hfind := admits_findReplacement hres old new
      simp only [answer, replace]
      split
      · next h => exact fun escape heq => hfind escape (h.trans (congrArg _ (by simpa using heq)))
      · exact admits_commit _ _ _ _ _ _ _ _ _
  | insert path line text =>
      have hfind := admits_findInsertion hres line
      simp only [answer, insert]
      split
      · next h => exact fun escape heq => hfind escape (h.trans (congrArg _ (by simpa using heq)))
      · exact admits_commit _ _ _ _ _ _ _ _ _
  | undo path =>
      simp only [Request.path] at hres
      simp only [answer, undo, hres]
      split
      · simp
      · split <;> simp

/-- **A path that leads out** is refused by every request, and nothing is done, unless it
strays. -/
theorem answer_escape_iff (request : Request) :
    e.answer desk request = (.error (.escape ⟨request.path, e.project.root⟩), desk) ↔
      e.project.LeadsOut desk.tree request.path ∧
        ¬ e.project.Strays desk.tree request.path := by
  rw [← Project.resolve_eq_error_iff]
  constructor
  · intro h
    refine (e.project.resolve_cases desk.tree request.path).resolve_left ?_
    rintro ⟨place, hres⟩
    exact admits_answer (resolve_eq_ok_iff.mpr hres) _ (congrArg Prod.fst h)
  · intro h
    have hres : e.resolve desk.tree request.path =
        .error (.escape ⟨request.path, e.project.root⟩) := by
      rw [resolve, h]
      rfl
    cases request <;>
      simp [answer, view, viewDirectory, create, replace, insert, undo, findReplacement,
        findInsertion, resolveThere, resolveFile, hres, Request.path] at hres ⊢

/-! ### Confinement -/

/-- A project with a file, and a directory beside it from which a link leads back to the
file. The project holds a link to that directory. -/
def linkedTree : Tree :=
  ⟨[(["p"], .directory 0o755), (["p", "a"], .file 0o644 (.text "one\n")),
    (["p", "out"], .link "/o"), (["o"], .directory 0o755), (["o", "back"], .link "/p/a")], []⟩

end Workbench.Editor
