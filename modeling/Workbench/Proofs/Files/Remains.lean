/-
# What remains to be read

While a collection is built, directories are cleared away and made, and databases are
written. Nothing of that brings a text or a link to a place where it was not before
(`Tree.Remains`), so what is still read of a file is what was in it at the start.

* `Tree.Remains.readText` — **a text that is still read** was there before.
-/

import Workbench.Proofs.Files.Directories
import Workbench.Proofs.Files.Staging

namespace Workbench.Files.Tree

/-- What is in the second tree was in the first one, apart from directories and databases. -/
def Remains (before after : Tree) : Prop :=
  ∀ path entry, after.get? path = some entry → before.get? path = some entry ∨
    entry.isDirectory = true ∨ ∃ mode table, entry = .file mode (.database table)

namespace Remains

variable {before mid after : Tree} {path place : Path} {names : List String} {mode : Nat}
  {content : Content} {s : String}

theorem refl (tree : Tree) : tree.Remains tree :=
  fun _ _ h => .inl h

theorem trans (h : before.Remains mid) (hafter : mid.Remains after) : before.Remains after := by
  intro path entry hentry
  rcases hafter path entry hentry with hmid | hnew
  · exact h path entry hmid
  · exact .inr hnew

theorem put (tree : Tree) (path : Path) {entry : Entry} (hentry : entry.isDirectory = true ∨
    ∃ mode table, entry = .file mode (.database table)) : tree.Remains (tree.put path entry) := by
  intro other found hfound
  by_cases hnil : other = []
  · subst hnil
    exact .inl (by simpa using hfound)
  by_cases heq : other = path
  · subst heq
    rw [get?_put_self tree hnil] at hfound
    obtain rfl := Option.some.inj hfound
    exact .inr hentry
  · rw [get?_put_of_ne tree heq] at hfound
    exact .inl hfound

theorem of_cleared {text : String} (h : before.Cleared text after) : before.Remains after :=
  fun _ _ hentry => .inl (h.get?_of_some hentry)

theorem makeDirectory {text : String} (h : before.makeDirectory text = .ok after) :
    before.Remains after := by
  obtain ⟨path, -, rfl⟩ := makeDirectory_eq_ok_iff.mp h
  exact put before path (.inl rfl)

theorem settle {attempt : Except Fault Tree} {text : String}
    (h : ∀ made, attempt = .ok made → before.Remains made) :
    before.Remains (makeDirectories.settle attempt text before).2 := by
  cases attempt with
  | ok made => exact h made rfl
  | error fault =>
      simp only [makeDirectories.settle]
      split
      · exact refl before
      · exact refl before

theorem makeDirectories (tree : Tree) (names : List String) :
    tree.Remains (tree.makeDirectories names).2 := by
  induction names with
  | nil => exact refl tree
  | cons name above ih =>
      simp only [Tree.makeDirectories]
      split
      · next made hmake => exact makeDirectory hmake
      · split
        · next hmid => exact hmid ▸ ih
        · next mid hmid =>
            have hbefore : tree.Remains mid := by simpa [hmid] using ih
            exact hbefore.trans (settle fun _ => makeDirectory)
      · exact settle (by simp)

theorem makeDirectoriesTo {text : String} {outcome : Option Fault}
    (h : before.makeDirectoriesTo text = (outcome, after)) : before.Remains after := by
  have hmade := makeDirectories before
    (before.start text ++ (Path.steps text).filter (· != ".")).reverse
  rw [Tree.makeDirectoriesTo] at h
  rwa [h] at hmade

/-- What is still read of a file is at the place where the file was. -/
theorem find_of_readText (h : before.Remains after) (hwf : before.WellFormed)
    (hfile : before.get? place = some (.file mode content))
    (hread : after.readText (Path.text place) = .ok s) :
    ∃ mode, after.find true (Path.text place) = .ok ⟨place, some (.file mode (.text s))⟩ := by
  obtain ⟨found, mode', hfind⟩ := readText_eq_ok_iff.mp hread
  have hno (via : Path) (target : String) (hvia : via <+: place) :
      after.get? via ≠ some (.link target) := by
    intro hlink
    rcases h via _ hlink with hbefore | hdir | ⟨_, _, hdatabase⟩
    · exact not_link_above hwf hfile (by simp) hvia target hbefore
    · simp [Entry.isDirectory] at hdir
    · simp at hdatabase
  obtain ⟨rfl, -⟩ : found = place ∧ _ := by
    simpa using find_direct (hwf.plain hfile) hno hfind
  exact ⟨mode', hfind⟩

/-- **A text that is still read** was there before. -/
theorem readText (h : before.Remains after) (hwf : before.WellFormed)
    (hfile : before.get? place = some (.file mode content))
    (hread : after.readText (Path.text place) = .ok s) :
    before.readText (Path.text place) = .ok s := by
  have hplain : Path.Plain place := hwf.plain hfile
  obtain ⟨mode', hfind⟩ := h.find_of_readText hwf hfile hread
  rcases h place _ (leads_of_find hplain hfind).entry_eq with hbefore | hdir | ⟨_, _, hdatabase⟩
  · refine readText_eq_ok_iff.mpr ⟨place, mode', ?_⟩
    rw [find_of_parent hwf hplain (fits_of_find hfind) (leads_of_find hplain hfind).short
      (hwf.parent hfile) (by simp [hfile]), hbefore]
  · simp [Entry.isDirectory] at hdir
  · simp at hdatabase

end Remains

/-- A file at a free place is in the way of no text. -/
theorem readText_put {tree : Tree} {place free : Path} {entry : Entry} {s : String}
    (hplain : Path.Plain place) (hfree : tree.get? free = none) (hentry : entry.isFile = true)
    (h : tree.readText (Path.text place) = .ok s) :
    (tree.put free entry).readText (Path.text place) = .ok s := by
  obtain ⟨found, mode, hfind⟩ := readText_eq_ok_iff.mp h
  have hfound : tree.get? found = some (.file mode (.text s)) :=
    (leads_of_find hplain hfind).entry_eq
  have hne : found ≠ free := by
    rintro rfl
    simp [hfree] at hfound
  refine readText_eq_ok_iff.mpr ⟨found, mode, ?_⟩
  rw [find_put_free hfree hplain hfind hentry, get?_put_of_ne tree hne, hfound]

end Workbench.Files.Tree
