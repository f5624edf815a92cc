/-
# Names of collections

What the user calls a collection and what the project is called are glued together, and a
digest or the mark of a build may follow. A name without slashes lies directly in the
directory of all collections, and there collections are told apart by their names alone.

* `exists_core` — **where a collection lies** and where it is built.
* `belongsTo_iff` — which names are recognised as those of a collection.
* `location_eq_iff` — **which collections share a location.**
-/

import Workbench.Proofs.Index.Placing

namespace Workbench.Index

open Workbench.Files Workbench.Files.Tree

variable {σ : Type} {ix : CodebaseIndex σ} {tree : Tree} {root root' : Path}
  {base core name runtimeDir collection collection' location : String}

/-! ### Ends of texts -/

theorem withoutEnd?_append (s ending : List Char) : withoutEnd? (s ++ ending) ending = some s := by
  have hend : ending.isSuffixOf (s ++ ending) = true :=
    List.isSuffixOf_iff_suffix.mpr (List.suffix_append ..)
  rw [withoutEnd?, if_pos hend, List.length_append, Nat.add_sub_cancel, List.take_left]

theorem withoutEnd?_of_not {s ending : List Char} (h : ¬ ending <:+ s) :
    withoutEnd? s ending = none := by
  rw [withoutEnd?, if_neg (mt List.isSuffixOf_iff_suffix.mp h)]

/-- An end in which a character does not occur lies behind that character. -/
theorem suffix_of_not_mem {ending start rest : List Char} {c : Char} (hc : c ∉ ending)
    (h : ending <:+ start ++ c :: rest) : ending <:+ rest := by
  rcases List.suffix_or_suffix_of_suffix h (List.suffix_append start (c :: rest)) with hin | hout
  · rcases List.suffix_cons_iff.mp hin with rfl | hin
    · simp at hc
    · exact hin
  · exact absurd (hout.subset (List.mem_cons_self ..)) hc

/-! ### Names of a collection -/

/-- The names of a complete collection: its base, perhaps with a digest. -/
def Names (base core : String) : Prop :=
  core = base ∨ ∃ d, IsDigest d ∧ core = base ++ "_" ++ d

theorem names_iff :
    Names base core ↔ core.toList = base.toList ∨
      ((base.toList ++ ['_']) <+: core.toList ∧
        (core.toList.drop (base.length + 1)).length = digestLength ∧
        ∀ c ∈ core.toList.drop (base.length + 1), isHexDigit c = true) := by
  refine or_congr String.toList_inj.symm ?_
  constructor
  · rintro ⟨d, hdigest, rfl⟩
    have hlist : (base ++ "_" ++ d).toList = (base.toList ++ ['_']) ++ d.toList := by simp
    have hdrop : (base ++ "_" ++ d).toList.drop (base.length + 1) = d.toList := by
      rw [hlist]
      exact List.drop_left' (by simp [String.length_toList])
    exact ⟨hlist ▸ List.prefix_append .., hdrop ▸ hdigest⟩
  · rintro ⟨⟨d, hd⟩, hdigest⟩
    have hdrop : core.toList.drop (base.length + 1) = d := by
      rw [← hd]
      exact List.drop_left' (by simp [String.length_toList])
    refine ⟨String.ofList d, ?_, String.toList_inj.mp ?_⟩
    · rw [IsDigest, String.toList_ofList, ← hdrop]
      exact hdigest
    · simp [← hd]

/-- **Which names are recognised** as those of a collection: its names that do not end in the
mark of a build, and all its names followed by that mark. -/
theorem belongsTo_iff :
    belongsTo name base = true ↔ ∃ core, Names base core ∧
      (name = core ++ stagingMark ∨ (name = core ∧ ¬ stagingMark.toList <:+ name.toList)) := by
  have hcore (s : List Char) :
      (s == base.toList || ((base.toList ++ ['_']).isPrefixOf s &&
        ((s.drop (base.length + 1)).length == digestLength &&
          (s.drop (base.length + 1)).all isHexDigit))) = true ↔ Names base (String.ofList s) := by
    rw [names_iff]
    simp
  by_cases hend : stagingMark.toList <:+ name.toList
  · obtain ⟨s, hs⟩ := hend
    have hname : name = String.ofList s ++ stagingMark := String.toList_inj.mp (by simp [← hs])
    have hbelongs : belongsTo name base = true ↔ Names base (String.ofList s) := by
      rw [← hcore, belongsTo, ← hs, withoutEnd?_append]
      rfl
    rw [hbelongs]
    constructor
    · exact fun h => ⟨_, h, .inl hname⟩
    · rintro ⟨core, hnames, heq | ⟨-, hno⟩⟩
      · obtain rfl : core = String.ofList s :=
          (String.append_left_inj stagingMark).mp (heq.symm.trans hname)
        exact hnames
      · exact absurd ⟨s, hs⟩ hno
  · have hbelongs : belongsTo name base = true ↔ Names base name := by
      have := hcore name.toList
      rw [String.ofList_toList] at this
      rw [← this, belongsTo, withoutEnd?_of_not hend]
      rfl
    rw [hbelongs]
    constructor
    · exact fun h => ⟨name, h, .inr ⟨rfl, hend⟩⟩
    · rintro ⟨core, hnames, rfl | ⟨rfl, -⟩⟩
      · simp at hend
      · exact hnames

/-- The mark of a build ends the name of a complete collection only if it ends the name of
the project. -/
theorem Names.not_staging (h : Names (keyName root collection) core)
    (hproject : ¬ stagingMark.toList <:+ (Project.nameOf root).toList) :
    ¬ stagingMark.toList <:+ core.toList := by
  intro hend
  rcases h with rfl | ⟨d, hdigest, rfl⟩
  · have hkey : stagingMark.toList <:+ collection.toList ++ '_' :: (Project.nameOf root).toList := by
      simpa [keyName] using hend
    exact hproject (suffix_of_not_mem (by decide) hkey)
  · have hall : stagingMark.toList <:+ (keyName root collection).toList ++ '_' :: d.toList := by
      simpa using hend
    have hin : 'l' ∈ d.toList := (suffix_of_not_mem (by decide) hall).subset (by decide)
    exact hdigest.not_mem (by decide) hin

/-! ### Where they lie -/

/-- **Where a collection lies** whose name holds no slash, and where it is built: in the
directory of all collections, under its own name. -/
theorem exists_core (hroot : Path.Plain root) (hcollection : '/' ∉ collection.toList)
    {scanned : Option (List Source)}
    (h : ix.locate tree root collection = .ok (location, scanned)) :
    ∃ core, Names (keyName root collection) core ∧ Path.IsName core ∧
      Path.IsName (core ++ stagingMark) ∧ location = Path.below ix.runtimeDir core ∧
      staging location = Path.below ix.runtimeDir (core ++ stagingMark) := by
  obtain ⟨-, d, hdigest, rfl⟩ := locate_eq_ok h
  have hkey : '/' ∉ (keyName root collection).toList := by
    simp [keyName, hcollection, not_mem_nameOf hroot]
  have hmark : '_' ∈ (keyName root collection).toList := by simp [keyName]
  have hall (core : String) (hcore : '/' ∉ core.toList) (hmem : '_' ∈ core.toList)
      (hnames : Names (keyName root collection) core) :
      ∃ name, Names (keyName root collection) name ∧ Path.IsName name ∧
        Path.IsName (name ++ stagingMark) ∧
        Path.below ix.runtimeDir core = Path.below ix.runtimeDir name ∧
        staging (Path.below ix.runtimeDir core) =
          Path.below ix.runtimeDir (name ++ stagingMark) := by
    have hlong : '/' ∉ (core ++ stagingMark).toList := by simp [hcore, stagingMark]
    exact ⟨core, hnames, isName_of_mark hmem hcore, isName_of_mark (by simp [hmem]) hlong, rfl,
      Path.below_append_tail hlong⟩
  cases d with
  | none => exact hall _ hkey hmark (.inl rfl)
  | some d =>
      exact hall _ (by simp [hkey, (hdigest d rfl).not_mem (c := '/') (by decide)]) (by simp)
        (.inr ⟨d, hdigest d rfl, rfl⟩)

theorem Placed.eq_of_below {dir : List String} (h : Placed (Path.below base core) dir name)
    (hcore : Path.IsName core) : dir = Path.inner base ∧ name = core := by
  have hsteps := h.steps.symm.trans (Path.steps_below base hcore.2.2.2 hcore.1)
  simpa using List.append_inj' hsteps rfl

/-- **Which collections share a location**: the same ones, and those of which one has in the
name of its project what the other has in its own name. -/
theorem location_eq_iff (hroot : Path.Plain root) (hroot' : Path.Plain root')
    (hcollection : '/' ∉ collection.toList) (hcollection' : '/' ∉ collection'.toList) :
    Index.location runtimeDir root collection none =
        Index.location runtimeDir root' collection' none ↔
      (collection = collection' ∧ Project.nameOf root = Project.nameOf root') ∨
      (∃ middle, collection' = collection ++ "_" ++ middle ∧
        Project.nameOf root = middle ++ "_" ++ Project.nameOf root') ∨
      ∃ middle, collection = collection' ++ "_" ++ middle ∧
        Project.nameOf root' = middle ++ "_" ++ Project.nameOf root := by
  have hkey : '/' ∉ (keyName root collection).toList := by
    simp [keyName, hcollection, not_mem_nameOf hroot]
  have hkey' : '/' ∉ (keyName root' collection').toList := by
    simp [keyName, hcollection', not_mem_nameOf hroot']
  have hlocation : Index.location runtimeDir root collection none =
      Index.location runtimeDir root' collection' none ↔
        keyName root collection = keyName root' collection' :=
    ⟨Path.below_injective hkey hkey', congrArg (Path.below runtimeDir)⟩
  rw [hlocation, keyName, keyName]
  generalize Project.nameOf root = project
  generalize Project.nameOf root' = project'
  constructor
  · intro heq
    have hlist : collection.toList ++ '_' :: project.toList =
        collection'.toList ++ '_' :: project'.toList := by
      simpa using congrArg String.toList heq
    rcases List.append_eq_append_iff.mp hlist with ⟨more, hmore, hrest⟩ | ⟨more, hmore, hrest⟩
    · cases more with
      | nil => exact .inl ⟨by simpa [eq_comm, String.toList_inj] using hmore,
          by simpa [String.toList_inj] using hrest⟩
      | cons first middle =>
          obtain ⟨rfl, hmiddle⟩ := List.cons.inj hrest
          exact .inr (.inl ⟨String.ofList middle, String.toList_inj.mp (by simp [hmore]),
            String.toList_inj.mp (by simp [hmiddle])⟩)
    · cases more with
      | nil => exact .inl ⟨by simpa [String.toList_inj] using hmore,
          by simpa [eq_comm, String.toList_inj] using hrest⟩
      | cons first middle =>
          obtain ⟨rfl, hmiddle⟩ := List.cons.inj hrest
          exact .inr (.inr ⟨String.ofList middle, String.toList_inj.mp (by simp [hmore]),
            String.toList_inj.mp (by simp [hmiddle])⟩)
  · rintro (⟨rfl, rfl⟩ | ⟨middle, rfl, rfl⟩ | ⟨middle, rfl, rfl⟩)
    · rfl
    · simp only [String.append_assoc]
    · simp only [String.append_assoc]

end Workbench.Index
