/-
# Spellings of one path

A path can be spelled in many ways: from the root of the file system or from that of the
project, with `.` and empty parts in it, and with `..` that lead back, even out of the
project and in again. An editor treats all spellings of a path alike. Where one is
accepted the others are, they name the same place, and a request does and answers the same
under each; only a refusal gives the path as it was spelled.

* `Project.joined` — the parts of a path as it is read from the root of a project.
* `Project.resolve_of_normalForm` — what a path is resolved to is what is left of them.
* `answer_respelled`, `run_respelled` — **requests and runs** under another spelling.
* `spelling_irrelevant` — **all spellings of a path are alike**.
-/

import Workbench.Proofs.Editor.Confinement
import Workbench.Proofs.Editor.Failing
import Workbench.Proofs.Files.Reduction
import Workbench.Proofs.Files.Relative

namespace Workbench

open Workbench.Files Workbench.Files.Tree

/-! ### Paths of a project -/

namespace Project

variable {project : Project} {tree : Tree} {p q : String} {place : Path} {left : List String}

/-- The parts of a written path as it is read from the root of a project. -/
def joined (project : Project) (text : String) : List String :=
  Path.written (Path.below (Path.text project.root) text)

/-- Two paths are spellings of one: the same is left of both. -/
def SameSpelling (project : Project) (p q : String) : Prop :=
  ∃ left, Path.NormalForm (project.joined p) left ∧ Path.NormalForm (project.joined q) left

theorem namesOf_eq (hroot : Path.Plain project.root) (text : String) :
    project.namesOf text = Path.names (Path.below (Path.text project.root) text) := by
  unfold namesOf
  split
  · next habsolute => rw [Path.below, if_pos (show text.startsWith "/" = true from habsolute)]
  · next hrelative =>
      rw [Path.names_below _ (by simpa using hrelative), Path.names_text hroot]

/-- A path is read as what is left of its parts, unless a `..` is. -/
theorem cancel_namesOf (hroot : Path.Plain project.root)
    (h : Path.NormalForm (project.joined p) left) :
    Path.cancel (project.namesOf p) = if ".." ∈ left then none else some left := by
  obtain rfl := Path.normalForm_iff.mp h
  rw [namesOf_eq hroot, Path.cancel_names]
  rfl

/-- What is left of the parts of a path stands for a place in the project, as it is written
and by where the deepest part of it that is there really lies, if that can be told. -/
def Accepts (project : Project) (tree : Tree) (left : List String) : Prop :=
  ".." ∉ left ∧ project.root <+: left ∧
    ∃ up real, tree.Anchor left up real ∧
      (tree.leadsFar (Path.text up) = false → project.root <+: real)

/-- **A path is resolved** to what is left of its parts, if that is accepted, and refused
otherwise. -/
theorem resolve_of_normalForm (hroot : Path.Plain project.root)
    (h : Path.NormalForm (project.joined p) left) (tree : Tree) :
    (project.Accepts tree left ∧ project.resolve tree p = .ok left) ∨
      (¬ project.Accepts tree left ∧ project.resolve tree p = .error ⟨p, project.root⟩) := by
  have hread := cancel_namesOf hroot h
  rcases project.resolve_cases tree p with ⟨place, hres⟩ | hres
  · left
    obtain ⟨up, real, hr⟩ := resolve_eq_ok_iff.mp hres
    rw [hr.spelled] at hread
    split at hread
    · cases hread
    · next hdots =>
        obtain rfl := Option.some.inj hread
        exact ⟨⟨hdots, hr.below, up, real, hr.anchor, hr.inside⟩, hres⟩
  · right
    refine ⟨?_, hres⟩
    rintro ⟨hdots, hbelow, up, real, hanchor, hinside⟩
    rw [if_neg hdots] at hread
    have hok := resolve_eq_ok_iff.mpr ⟨up, real, hread, hbelow, hanchor, hinside⟩
    rw [hres] at hok
    cases hok

/-- **What a path is resolved to** does not depend on how it is spelled. -/
theorem resolve_respelled (hroot : Path.Plain project.root) (h : project.SameSpelling p q)
    (tree : Tree) :
    project.resolve tree q =
      (project.resolve tree p).mapError fun escape => ⟨q, escape.root⟩ := by
  obtain ⟨left, hp, hq⟩ := h
  rcases resolve_of_normalForm hroot hp tree with ⟨hin, hp⟩ | ⟨hout, hp⟩
  · rcases resolve_of_normalForm hroot hq tree with ⟨-, hq⟩ | ⟨hout, -⟩
    · rw [hp, hq]
      rfl
    · exact absurd hin hout
  · rcases resolve_of_normalForm hroot hq tree with ⟨hin, -⟩ | ⟨-, hq⟩
    · exact absurd hin hout
    · rw [hp, hq]
      rfl

/-- **A place that a path was resolved to** is resolved to itself. -/
theorem resolve_text (hroot : Path.Plain project.root)
    (hres : project.resolve tree p = .ok place) :
    project.resolve tree (Path.text place) = .ok place := by
  obtain ⟨up, real, hr⟩ := resolve_eq_ok_iff.mp hres
  have hplain := hr.plain hroot
  have hread : Path.cancel (project.namesOf (Path.text place)) = some place := by
    rw [namesOf, if_pos (Path.isAbsolute_text place), Path.names_text hplain,
      Path.cancel_plain hplain]
  exact resolve_eq_ok_iff.mpr ⟨up, real, hread, hr.below, hr.anchor, hr.inside⟩

/-- **A path that climbs above the root of the file system** leads out. -/
theorem resolve_of_climbs (hroot : Path.Plain project.root)
    (h : Path.Climbs (project.joined p)) (tree : Tree) :
    project.resolve tree p = .error ⟨p, project.root⟩ := by
  have hnone : Path.cancel (project.namesOf p) = none := by
    rw [cancel_namesOf hroot (Path.normalForm_iff.mpr rfl),
      if_pos (Path.dots_mem_normal_iff.mpr h)]
  rw [resolve, hnone]

end Project

namespace Editor

/-! ### Requests -/

/-- The request with another path. -/
def Request.withPath (path : String) : Request → Request
  | view _ range => view path range
  | viewDirectory _ depth => viewDirectory path depth
  | create _ text => create path text
  | replace _ old new => replace path old new
  | insert _ line text => insert path line text
  | undo _ => undo path

/-- The refusal of a request with another path, for the same reason. -/
def Refusal.withPath (path : String) : Refusal → Refusal
  | notFound _ => notFound path
  | alreadyExists _ => alreadyExists path
  | ambiguous _ lines => ambiguous path lines
  | noMatch _ old => noMatch path old
  | noChange _ => noChange path
  | range fault => range fault
  | noHistory _ => noHistory path
  | escape e => escape ⟨path, e.root⟩
  | misuse (.notADirectory _) => misuse (.notADirectory path)
  | misuse (.directory _) => misuse (.directory path)
  | misuse m => misuse m
  | access _ fault => access path fault

theorem Refusal.kind_withPath (path : String) (refusal : Refusal) :
    (refusal.withPath path).kind = refusal.kind := by
  unfold withPath
  split <;> rfl

variable {e : Editor} {desk : Desk} {tree : Tree} {p q : String} {place : Path}

/-! ### What a request looks at -/

/-- What is read at a place does not depend on the path. -/
theorem readFile_respelled (p q : String) (tree : Tree) (place : Path) :
    readFile tree q place = (readFile tree p place).mapError (.withPath q) := by
  unfold readFile
  cases tree.readText (Path.text place) <;> rfl

theorem uniqueOccurrence_respelled (p q old content : String) :
    uniqueOccurrence q old content = (uniqueOccurrence p old content).mapError (.withPath q) := by
  unfold uniqueOccurrence
  split <;> rfl

theorem numbered_respelled (q content : String) (range : Option (Int × Int)) :
    numbered content range = (numbered content range).mapError (.withPath q) := by
  unfold numbered
  split
  · rfl
  · dsimp only
    split <;> rfl

section Looking

variable (hroot : Path.Plain e.project.root) (h : e.project.SameSpelling p q)

include hroot h

theorem resolve_respelled (tree : Tree) :
    e.resolve tree q = (e.resolve tree p).mapError (.withPath q) := by
  unfold resolve
  rw [Project.resolve_respelled hroot h]
  cases e.project.resolve tree p <;> rfl

theorem resolveThere_respelled (tree : Tree) :
    e.resolveThere tree q = (e.resolveThere tree p).mapError (.withPath q) := by
  unfold resolveThere
  rw [resolve_respelled hroot h, Attempt.mapError_bind]
  congr 1
  funext place
  split <;> rfl

theorem resolveFile_respelled (tree : Tree) :
    e.resolveFile tree q = (e.resolveFile tree p).mapError (.withPath q) := by
  unfold resolveFile
  rw [resolveThere_respelled hroot h, Attempt.mapError_bind]
  congr 1
  funext place
  split <;> rfl

theorem view_respelled (tree : Tree) (range : Option (Int × Int)) :
    e.view tree q range = (e.view tree p range).mapError (.withPath q) := by
  unfold view
  rw [resolveThere_respelled hroot h, Attempt.mapError_bind]
  congr 1
  funext place
  split
  · split <;> rfl
  · rw [readFile_respelled p q, Attempt.mapError_bind]
    congr 1
    funext content
    rw [Attempt.mapError_bind, ← numbered_respelled q]
    rfl

theorem viewDirectory_respelled (tree : Tree) (depth : Option Nat) :
    e.viewDirectory tree q depth = (e.viewDirectory tree p depth).mapError (.withPath q) := by
  unfold viewDirectory
  rw [resolveThere_respelled hroot h, Attempt.mapError_bind]
  congr 1
  funext place
  split <;> rfl

theorem changes_respelled (desk : Desk) :
    e.changes desk q = (e.changes desk p).mapError (.withPath q) := by
  unfold changes
  rw [resolve_respelled hroot h]
  cases e.resolve desk.tree p <;> rfl

theorem findReplacement_respelled (tree : Tree) (old new : String) :
    e.findReplacement tree q old new =
      (e.findReplacement tree p old new).mapError (.withPath q) := by
  unfold findReplacement
  rw [resolveFile_respelled hroot h, Attempt.mapError_bind]
  congr 1
  funext place
  by_cases hempty : old = ""
  · simp only [if_pos hempty]
    rfl
  · by_cases hsame : old = new
    · simp only [if_neg hempty, if_pos hsame]
      rfl
    · simp only [if_neg hempty, if_neg hsame]
      rw [readFile_respelled p q, Attempt.mapError_bind]
      congr 1
      funext content
      rw [uniqueOccurrence_respelled p q, Attempt.mapError_bind]
      rfl

theorem findInsertion_respelled (tree : Tree) (line : Int) :
    e.findInsertion tree q line = (e.findInsertion tree p line).mapError (.withPath q) := by
  unfold findInsertion
  rw [resolveFile_respelled hroot h, Attempt.mapError_bind]
  congr 1
  funext place
  rw [readFile_respelled p q, Attempt.mapError_bind]
  congr 1
  funext content
  dsimp only
  split <;> rfl

end Looking

/-! ### What a request does -/

/-- The outcome of a request with another path: what there is after it is the same, and so
is the answer, but for the path that a refusal gives. -/
def Outcome.withPath (path : String) (outcome : Outcome) : Outcome :=
  (outcome.1.mapError (.withPath path), outcome.2)

theorem commit_respelled (p q : String) (e : Editor) (desk : Desk) (place : Path)
    (operation : Operation) (content : String) (updated : List Char) (first span : Nat) :
    e.commit desk q place operation content updated first span =
      (e.commit desk p place operation content updated first span).withPath q := by
  unfold commit
  split <;> rfl

section Doing

variable (hroot : Path.Plain e.project.root) (h : e.project.SameSpelling p q)

include hroot h

theorem create_respelled (desk : Desk) (text : String) :
    e.create desk q text = (e.create desk p text).withPath q := by
  unfold create
  rw [resolve_respelled hroot h]
  cases e.resolve desk.tree p with
  | error refusal => rfl
  | ok place =>
      simp only [Attempt.mapError_ok]
      split
      · rfl
      · split
        · rfl
        · split <;> rfl

theorem replace_respelled (desk : Desk) (old new : String) :
    e.replace desk q old new = (e.replace desk p old new).withPath q := by
  unfold replace
  rw [findReplacement_respelled hroot h]
  cases e.findReplacement desk.tree p old new with
  | error refusal => rfl
  | ok found => exact commit_respelled p q ..

theorem insert_respelled (desk : Desk) (line : Int) (text : String) :
    e.insert desk q line text = (e.insert desk p line text).withPath q := by
  unfold insert
  rw [findInsertion_respelled hroot h]
  cases e.findInsertion desk.tree p line with
  | error refusal => rfl
  | ok found => exact commit_respelled p q ..

theorem undo_respelled (desk : Desk) : e.undo desk q = (e.undo desk p).withPath q := by
  unfold undo
  rw [resolve_respelled hroot h]
  cases e.resolve desk.tree p with
  | error refusal => rfl
  | ok place =>
      simp only [Attempt.mapError_ok]
      split
      · rfl
      · split <;> rfl

/-- **A request under another spelling** does the same, and answers the same. -/
theorem answer_respelled (desk : Desk) {request : Request} (hpath : request.path = p) :
    e.answer desk (request.withPath q) = (e.answer desk request).withPath q := by
  cases request with
  | view path range =>
      obtain rfl : path = p := hpath
      exact Prod.ext (view_respelled hroot h desk.tree range) rfl
  | viewDirectory path depth =>
      obtain rfl : path = p := hpath
      exact Prod.ext (viewDirectory_respelled hroot h desk.tree depth) rfl
  | create path text =>
      obtain rfl : path = p := hpath
      exact create_respelled hroot h desk text
  | replace path old new =>
      obtain rfl : path = p := hpath
      exact replace_respelled hroot h desk old new
  | insert path line text =>
      obtain rfl : path = p := hpath
      exact insert_respelled hroot h desk line text
  | undo path =>
      obtain rfl : path = p := hpath
      exact undo_respelled hroot h desk

end Doing

/-! ### Runs -/

/-- Two requests are one but for the spelling of the path. -/
def Request.Respelled (e : Editor) (request other : Request) : Prop :=
  other = request.withPath other.path ∧ e.project.SameSpelling request.path other.path

/-- **A run under other spellings** leads to the same desk, so that what was done under one
spelling of a path can be undone under another. -/
theorem run_respelled (hroot : Path.Plain e.project.root) {requests others : List Request}
    (h : List.Forall₂ (Request.Respelled e) requests others) (desk : Desk) :
    e.run desk requests = e.run desk others := by
  induction h generalizing desk with
  | nil => rfl
  | @cons request other _ _ hsame _ ih =>
      obtain ⟨hother, hspelled⟩ := hsame
      have hdesk : (e.answer desk other).2 = (e.answer desk request).2 := by
        rw [hother, answer_respelled hroot hspelled desk rfl]
        rfl
      change e.run (e.answer desk request).2 _ = e.run (e.answer desk other).2 _
      rw [hdesk, ih]

/-! ### Spellings -/

/-- **All spellings of a path are alike.** What is left of a path, read from the root of
the project, when parts that name nothing and names with a `..` after them are left out
does not depend on the order. Two paths of which the same is left are both resolved to just
that, if it stands for a place in the project, and both refused otherwise; a request does the
same under both, and answers the same, but for the path that a refusal gives, and so do the
edits that can be undone. A place that a path was resolved to is resolved to itself, and a path
that climbs above the root of the file system leads out of the project. -/
theorem spelling_irrelevant (root : Path.Plain e.project.root) :
    (∀ p, ∃! left, Path.NormalForm (e.project.joined p) left) ∧
    (∀ p q left, Path.NormalForm (e.project.joined p) left →
      Path.NormalForm (e.project.joined q) left →
      (∀ tree,
        (e.project.Accepts tree left ∧
          e.project.resolve tree p = .ok left ∧ e.project.resolve tree q = .ok left) ∨
        (¬ e.project.Accepts tree left ∧
          e.project.resolve tree p = .error ⟨p, e.project.root⟩ ∧
          e.project.resolve tree q = .error ⟨q, e.project.root⟩)) ∧
      (∀ desk request, request.path = p →
        e.answer desk (request.withPath q) = (e.answer desk request).withPath q) ∧
      ∀ desk, e.changes desk q = (e.changes desk p).mapError (.withPath q)) ∧
    (∀ tree p place, e.project.resolve tree p = .ok place →
      e.project.resolve tree (Path.text place) = .ok place) ∧
    ∀ tree p, Path.Climbs (e.project.joined p) →
      e.project.resolve tree p = .error ⟨p, e.project.root⟩ := by
  refine ⟨fun p => ⟨_, Path.normalForm_iff.mpr rfl, fun _ h => (Path.normalForm_iff.mp h).symm⟩,
    fun p q left hp hq => ⟨fun tree => ?_, fun desk request hpath => ?_, fun desk => ?_⟩,
    fun tree p place => Project.resolve_text root,
    fun tree p h => Project.resolve_of_climbs root h tree⟩
  · have hsame := Project.resolve_respelled root ⟨left, hp, hq⟩ tree
    rcases Project.resolve_of_normalForm root hp tree with ⟨hin, hres⟩ | ⟨hout, hres⟩
    · rw [hres] at hsame
      exact .inl ⟨hin, hres, hsame⟩
    · rw [hres] at hsame
      exact .inr ⟨hout, hres, hsame⟩
  · exact answer_respelled root ⟨left, hp, hq⟩ desk hpath
  · exact changes_respelled root ⟨left, hp, hq⟩ desk

/-- A file is edited under a spelling that leads out of the project and in again. -/
theorem spelling_irrelevant_sampleTree :
    Path.Plain sampleEditor.project.root ∧
    sampleEditor.project.resolve sampleTree "./a" = .ok ["p", "a"] ∧
    sampleEditor.project.resolve sampleTree "../x//..//p/a/" = .ok ["p", "a"] ∧
    sampleEditor.answer ⟨sampleTree, .empty⟩ (.replace "../x//..//p/a/" "one" "two") =
      (sampleEditor.answer ⟨sampleTree, .empty⟩ (.replace "./a" "one" "two")).withPath
        "../x//..//p/a/" ∧
    (sampleEditor.answer ⟨sampleTree, .empty⟩ (.replace "./a" "one" "two")).2.tree.get? ["p", "a"] =
      some (.file 0o600 (.text "two\n")) ∧
    sampleEditor.project.resolve sampleTree "/p/a" = .ok ["p", "a"] ∧
    sampleEditor.project.resolve sampleTree "b/../../../p/a" =
      .error ⟨"b/../../../p/a", ["p"]⟩ := by
  have hroot : Path.Plain sampleEditor.project.root := by decide
  obtain ⟨-, hsame, htext, hclimbs⟩ := spelling_irrelevant hroot
  obtain ⟨hresolve, hanswer, -⟩ := hsame "./a" "../x//..//p/a/" ["p", "a"]
    (Path.normalForm_iff.mpr (by decide +kernel)) (Path.normalForm_iff.mpr (by decide +kernel))
  have hok : sampleEditor.project.resolve sampleTree "./a" = .ok ["p", "a"] := by decide +kernel
  rcases hresolve sampleTree with ⟨-, -, hother⟩ | ⟨-, herror, -⟩
  · exact ⟨hroot, hok, hother, hanswer _ (.replace "./a" "one" "two") rfl, by decide +kernel,
      htext sampleTree "./a" ["p", "a"] hok,
      hclimbs sampleTree _ (Path.dots_mem_normal_iff.mp (by decide +kernel))⟩
  · simp [hok] at herror

end Editor

end Workbench
