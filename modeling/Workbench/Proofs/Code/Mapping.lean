/-
# Registries are maps

A registry is a list of entries in which a later registration takes the place of an earlier
one. It behaves as a map from extensions up to their spelling, in the order in which its keys
first came: an extension has the language that it was last registered with, in whatever
spelling, and a selection keeps that for the extensions that it mentions and for no others.

* `normalExtension_eq_iff` — what a normal form is.
* `Registry.Normal` — keys are normal forms, and each stands once; `Registry.Normal.register`
  and `Registry.normal_select` are the steps, `Registry.normal_changed` is the run.
* `Registry.extensions_registered`, `Registry.extensions_select`,
  `Registry.get?_registered_eq_some_iff` — what is listed in which order, and what is found.
* `Registry.map_up_to_spelling` — **registries are maps up to spelling.**
* `Registry.registered_entries` — a registry is that of its entries, registered one by one.
-/

import Workbench.Proofs.Code.Registering

namespace Workbench.Code

variable {extension other key : String} {language : Language}

/-! ### Normal forms -/

/-- The form is the extension without the dots before it, in lowercase. -/
def IsNormalForm (extension form : String) : Prop :=
  ∃ dots rest, extension.toList = List.replicate dots '.' ++ rest ∧ rest.head? ≠ some '.' ∧
    form.toList = rest.map Char.toLower

theorem normalExtension_eq_iff {form : String} :
    normalExtension extension = form ↔ IsNormalForm extension form := by
  constructor
  · rintro rfl
    obtain ⟨dots, hdots⟩ : ∃ dots, extension.toList.takeWhile (· == '.') =
        List.replicate dots '.' :=
      ⟨_, List.eq_replicate_of_mem fun c mem => by simpa using List.mem_takeWhile_imp mem⟩
    refine ⟨dots, extension.toList.dropWhile (· == '.'), ?_, ?_, String.toList_ofList⟩
    · rw [← hdots, List.takeWhile_append_dropWhile]
    · intro hhead
      have hfirst := List.head?_dropWhile_not (· == '.') extension.toList
      rw [hhead] at hfirst
      cases hfirst
  · rintro ⟨dots, rest, hextension, hhead, hform⟩
    have hdots : ∀ c ∈ List.replicate dots '.', (c == '.') = true := fun c mem =>
      beq_iff_eq.mpr (List.eq_of_mem_replicate mem)
    rw [normalExtension, hextension, List.dropWhile_append_of_pos hdots,
      dropWhile_dot_of_head? hhead, ← hform, String.ofList_toList]

/-! ### Mentions -/

/-- One of the extensions is a spelling of this one. -/
def Mentions (extensions : List String) (extension : String) : Prop :=
  ∃ other ∈ extensions, normalExtension other = normalExtension extension

instance (extensions : List String) (extension : String) :
    Decidable (Mentions extensions extension) :=
  inferInstanceAs (Decidable (∃ other ∈ extensions, _))

theorem mentions_concat_iff {extensions : List String} :
    Mentions (extensions ++ [other]) extension ↔
      Mentions extensions extension ∨ normalExtension other = normalExtension extension := by
  simp only [Mentions, List.mem_append, List.mem_singleton, or_and_right, exists_or,
    exists_eq_left]

theorem mentions_iff_mem_map {extensions : List String} :
    Mentions extensions extension ↔ normalExtension extension ∈ extensions.map normalExtension :=
  List.mem_map.symm

/-- Only what is new is added to a list without repetitions, at its end. -/
theorem eraseDups_concat (keys : List String) :
    (keys ++ [key]).eraseDups =
      if key ∈ keys then keys.eraseDups else keys.eraseDups ++ [key] := by
  rw [List.eraseDups_append]
  by_cases h : key ∈ keys <;> simp [List.removeAll, List.eraseDups_cons, h]

namespace Registry

variable {r selected : Registry}

/-! ### Entries -/

/-- A key that is there keeps its place. -/
theorem keys_put_of_mem {entries : List (String × Language)} (h : key ∈ entries.map (·.1)) :
    (put key language entries).map (·.1) = entries.map (·.1) := by
  induction entries with
  | nil => cases h
  | cons entry rest ih =>
      obtain ⟨found, old⟩ := entry
      by_cases hfound : found = key
      · rw [put, if_pos hfound, List.map_cons, List.map_cons, hfound]
      · have hrest : key ∈ rest.map (·.1) :=
          (List.mem_cons.mp h).resolve_left fun heq => hfound heq.symm
        rw [put, if_neg hfound, List.map_cons, List.map_cons, ih hrest]

/-- A key that is not there is put at the end. -/
theorem put_of_not_mem {entries : List (String × Language)} (h : key ∉ entries.map (·.1)) :
    put key language entries = entries ++ [(key, language)] := by
  induction entries with
  | nil => rfl
  | cons entry rest ih =>
      obtain ⟨found, old⟩ := entry
      rw [List.map_cons, List.mem_cons, not_or] at h
      rw [put, if_neg fun heq => h.1 heq.symm, ih h.2, List.cons_append]

/-- An extension is found when its normal form is listed. -/
theorem get?_eq_none_iff : r.get? extension = none ↔ normalExtension extension ∉ r.extensions := by
  rw [get?, Option.map_eq_none_iff, List.find?_eq_none, extensions, List.mem_map]
  constructor
  · rintro h ⟨entry, mem, hkey⟩
    exact h entry mem (beq_iff_eq.mpr hkey)
  · intro h entry mem hkey
    exact h ⟨entry, mem, beq_iff_eq.mp hkey⟩

theorem extensions_register : (r.register extension language).extensions =
    if normalExtension extension ∈ r.extensions then r.extensions
    else r.extensions ++ [normalExtension extension] := by
  by_cases h : normalExtension extension ∈ r.extensions
  · rw [if_pos h]
    exact keys_put_of_mem h
  · rw [if_neg h, extensions, register, put_of_not_mem h, List.map_append]
    rfl

theorem selecting_of_not_mem (h : normalExtension extension ∉ r.extensions) :
    r.selecting selected extension = selected := by
  rw [selecting, get?_eq_none_iff.mpr h]

theorem exists_selecting (h : normalExtension extension ∈ r.extensions) :
    ∃ language, r.selecting selected extension = selected.register extension language := by
  obtain ⟨language, hget⟩ := Option.ne_none_iff_exists'.mp (mt get?_eq_none_iff.mp (not_not.mpr h))
  exact ⟨language, by rw [selecting, hget]⟩

/-! ### Keys that are normal -/

/-- The keys of a registry are normal forms, and each of them stands once. -/
structure Normal (r : Registry) : Prop where
  nodup : r.extensions.Nodup
  normal : r.extensions.map normalExtension = r.extensions

theorem normal_empty : empty.Normal :=
  ⟨List.nodup_nil, rfl⟩

theorem Normal.register (h : r.Normal) : (r.register extension language).Normal := by
  by_cases hmem : normalExtension extension ∈ r.extensions
  · have hkeys : (r.register extension language).extensions = r.extensions := by
      rw [extensions_register, if_pos hmem]
    exact ⟨hkeys ▸ h.nodup, hkeys ▸ h.normal⟩
  · have hkeys : (r.register extension language).extensions =
        r.extensions ++ [normalExtension extension] := by
      rw [extensions_register, if_neg hmem]
    constructor
    · rw [hkeys, ← List.concat_eq_append]
      exact h.nodup.concat hmem
    · rw [hkeys, List.map_append, h.normal, List.map_singleton, normalExtension_normalExtension]

theorem Normal.selecting (h : selected.Normal) : (r.selecting selected extension).Normal := by
  by_cases hmem : normalExtension extension ∈ r.extensions
  · obtain ⟨language, heq⟩ := r.exists_selecting hmem
    exact heq ▸ h.register
  · exact selecting_of_not_mem hmem ▸ h

/-! ### Registrations and selections -/

/-- The registry of registrations that are made one after the other. -/
def registered (calls : List (String × Language)) : Registry :=
  calls.foldl (fun r call => r.register call.1 call.2) empty

theorem registered_concat (calls : List (String × Language)) (call : String × Language) :
    registered (calls ++ [call]) = (registered calls).register call.1 call.2 :=
  List.foldl_concat ..

theorem select_concat (wanted : List String) :
    r.select (wanted ++ [extension]) = r.selecting (r.select wanted) extension :=
  List.foldl_concat ..

theorem normal_registered (calls : List (String × Language)) : (registered calls).Normal := by
  induction calls using List.reverseRecOn with
  | nil => exact normal_empty
  | append_singleton calls call ih =>
      rw [registered_concat]
      exact ih.register

/-- A selection has normal keys, also from a registry that has others. -/
theorem normal_select (wanted : List String) : (r.select wanted).Normal := by
  induction wanted using List.reverseRecOn with
  | nil => exact normal_empty
  | append_singleton wanted extension ih =>
      rw [select_concat]
      exact ih.selecting

/-- **Extensions are listed in the order of their first registration.** -/
theorem extensions_registered (calls : List (String × Language)) :
    (registered calls).extensions = (calls.map fun call => normalExtension call.1).eraseDups := by
  induction calls using List.reverseRecOn with
  | nil => rfl
  | append_singleton calls call ih =>
      rw [registered_concat, extensions_register, List.map_append, List.map_singleton,
        eraseDups_concat, ih]
      simp only [List.mem_eraseDups]

/-- **Selected extensions are listed in the order of their first mention.** -/
theorem extensions_select (wanted : List String) : (r.select wanted).extensions =
    ((wanted.map normalExtension).filter (· ∈ r.extensions)).eraseDups := by
  induction wanted using List.reverseRecOn with
  | nil => rfl
  | append_singleton wanted extension ih =>
      rw [select_concat, List.map_append, List.map_singleton, List.filter_append]
      by_cases h : normalExtension extension ∈ r.extensions
      · obtain ⟨language, heq⟩ := r.exists_selecting h
        rw [heq, extensions_register, List.filter_cons_of_pos (by simpa using h), List.filter_nil,
          eraseDups_concat, ih]
        simp only [List.mem_eraseDups]
      · rw [selecting_of_not_mem h, List.filter_cons_of_neg (by simpa using h), List.filter_nil,
          List.append_nil, ih]

/-! ### Lookups -/

/-- The language that an extension, however it is spelled, was registered with last. -/
def LastRegistered (calls : List (String × Language)) (extension : String) (language : Language) :
    Prop :=
  ∃ before other after, calls = before ++ (other, language) :: after ∧
    normalExtension other = normalExtension extension ∧ ¬ Mentions (after.map (·.1)) extension

theorem not_lastRegistered_nil : ¬ LastRegistered [] extension language := by
  rintro ⟨before, other, after, h, -⟩
  cases before <;> cases h

theorem lastRegistered_concat_iff {calls : List (String × Language)} {call : String × Language} :
    LastRegistered (calls ++ [call]) extension language ↔
      if normalExtension call.1 = normalExtension extension then call.2 = language
      else LastRegistered calls extension language := by
  obtain ⟨name, found⟩ := call
  constructor
  · rintro ⟨before, other, after, h, hsame, hafter⟩
    rcases List.eq_nil_or_concat' after with rfl | ⟨after, last, rfl⟩
    · obtain ⟨-, h⟩ := List.append_inj' h rfl
      obtain ⟨rfl, rfl⟩ := Prod.mk.inj (List.singleton_inj.mp h)
      rw [if_pos hsame]
    · rw [← List.cons_append, ← List.append_assoc] at h
      obtain ⟨rfl, hlast⟩ := List.append_inj' h rfl
      obtain rfl := List.singleton_inj.mp hlast
      rw [List.map_append, List.map_singleton, mentions_concat_iff, not_or] at hafter
      rw [if_neg hafter.2]
      exact ⟨before, other, after, rfl, hsame, hafter.1⟩
  · intro h
    split at h
    · next hsame =>
        obtain rfl := h
        refine ⟨calls, name, [], rfl, hsame, ?_⟩
        rintro ⟨other, mem, -⟩
        cases mem
    · next hother =>
        obtain ⟨before, other, after, rfl, hsame, hafter⟩ := h
        refine ⟨before, other, after ++ [(name, found)], by simp, hsame, ?_⟩
        rw [List.map_append, List.map_singleton, mentions_concat_iff, not_or]
        exact ⟨hafter, hother⟩

/-- **What is found is what was registered last**, under any spelling. -/
theorem get?_registered_eq_some_iff {calls : List (String × Language)} :
    (registered calls).get? extension = some language ↔
      LastRegistered calls extension language := by
  induction calls using List.reverseRecOn with
  | nil => exact iff_of_false (Option.some_ne_none language).symm not_lastRegistered_nil
  | append_singleton calls call ih =>
      rw [registered_concat, get?_register, lastRegistered_concat_iff]
      by_cases h : normalExtension call.1 = normalExtension extension
      · rw [if_pos h, if_pos h, Option.some_inj]
      · rw [if_neg h, if_neg h, ih]

theorem mem_extensions_registered_iff {calls : List (String × Language)} :
    normalExtension extension ∈ (registered calls).extensions ↔
      Mentions (calls.map (·.1)) extension := by
  rw [extensions_registered, List.mem_eraseDups, mentions_iff_mem_map, List.map_map]
  rfl

/-! ### Spellings -/

theorem register_normalExtension :
    r.register (normalExtension extension) language = r.register extension language := by
  rw [register, register, normalExtension_normalExtension]

theorem selecting_normalExtension :
    r.selecting selected (normalExtension extension) = r.selecting selected extension := by
  unfold selecting
  rw [get?_congr normalExtension_normalExtension]
  simp only [register_normalExtension]

/-- Registrations do not depend on how the extensions are spelled. -/
theorem registered_map_normalExtension (calls : List (String × Language)) :
    registered (calls.map fun call => (normalExtension call.1, call.2)) = registered calls := by
  unfold registered
  rw [List.foldl_map]
  simp only [register_normalExtension]

/-- Nor do selections. -/
theorem select_map_normalExtension (wanted : List String) :
    r.select (wanted.map normalExtension) = r.select wanted := by
  have hfold (wanted : List String) : r.select wanted = wanted.foldl r.selecting empty := rfl
  rw [hfold, hfold, List.foldl_map]
  simp only [selecting_normalExtension]

/-- **Registries are maps up to spelling.** After any registrations, an extension has the
language that was last registered under a spelling of it. A selection has the same languages
for the extensions that it mentions, and none for the others. What is listed are normal forms,
each once: those of the registrations, in the order in which they first came, and those of a
selection in the order in which it first mentions them, as far as they are registered. All of
this depends on extensions through their normal forms alone, which are without the dots before
them and in lowercase. -/
theorem map_up_to_spelling (calls : List (String × Language)) (wanted : List String) :
    let all := registered calls
    let chosen := all.select wanted
    (∀ extension form, normalExtension extension = form ↔ IsNormalForm extension form) ∧
    (∀ extension language, all.get? extension = some language ↔
      LastRegistered calls extension language) ∧
    (∀ extension language, chosen.get? extension = some language ↔
      Mentions wanted extension ∧ LastRegistered calls extension language) ∧
    (∀ extension, chosen.get? extension = none ↔
      ¬ (Mentions wanted extension ∧ Mentions (calls.map (·.1)) extension)) ∧
    all.extensions = (calls.map fun call => normalExtension call.1).eraseDups ∧
    chosen.extensions =
      ((wanted.filter (Mentions (calls.map (·.1)) ·)).map normalExtension).eraseDups ∧
    all.Normal ∧ chosen.Normal ∧
    registered (calls.map fun call => (normalExtension call.1, call.2)) = all ∧
    all.select (wanted.map normalExtension) = chosen ∧
    ∀ extension, chosen.get? (normalExtension extension) = chosen.get? extension := by
  intro all chosen
  have hlisted : chosen.extensions =
      ((wanted.filter (Mentions (calls.map (·.1)) ·)).map normalExtension).eraseDups := by
    rw [extensions_select, List.filter_map]
    congr 2
    refine List.filter_congr fun extension _ => ?_
    exact decide_eq_decide.mpr mem_extensions_registered_iff
  have hfound (extension : String) : chosen.get? extension =
      if Mentions wanted extension then all.get? extension else none := get?_select
  refine ⟨fun _ _ => normalExtension_eq_iff, fun _ _ => get?_registered_eq_some_iff, ?_, ?_,
    extensions_registered calls, hlisted, normal_registered calls, normal_select wanted,
    registered_map_normalExtension calls, select_map_normalExtension wanted,
    fun _ => get?_congr normalExtension_normalExtension⟩
  · intro extension language
    rw [hfound, Option.ite_none_right_eq_some, get?_registered_eq_some_iff]
  · intro extension
    rw [hfound, ite_eq_right_iff, get?_eq_none_iff, mem_extensions_registered_iff, not_and]

example (g : Grammars) : builtin g =
    registered [("py", .python g.python), ("java", .java g.java), ("rs", .rust g.rust)] := rfl

example (g : Grammars) :
    ((builtin g).select [".RS", "go", "py", "rs"]).extensions = ["rs", "py"] := rfl

/-! ### Any mix of registrations and selections -/

/-- What is done to a registry. -/
inductive Change where
  | register (extension : String) (language : Language)
  | select (wanted : List String)

/-- The registry after a change. -/
def changed (r : Registry) : Change → Registry
  | .register extension language => r.register extension language
  | .select wanted => r.select wanted

theorem Normal.changed (h : r.Normal) (change : Change) : (r.changed change).Normal := by
  cases change with
  | register extension language => exact h.register
  | select wanted => exact normal_select wanted

/-- Keys are normal after any changes. -/
theorem normal_changed (changes : List Change) : (changes.foldl changed empty).Normal := by
  induction changes using List.reverseRecOn with
  | nil => exact normal_empty
  | append_singleton changes change ih =>
      rw [List.foldl_concat]
      exact ih.changed change

theorem normal_concat {entries : List (String × Language)} {entry : String × Language}
    (h : Normal ⟨entries ++ [entry]⟩) :
    Normal ⟨entries⟩ ∧ normalExtension entry.1 = entry.1 ∧ entry.1 ∉ entries.map (·.1) := by
  obtain ⟨hnodup, hnormal⟩ := h
  simp only [extensions, List.map_append, List.map_singleton] at hnodup hnormal
  obtain ⟨hkeys, hkey⟩ := List.append_inj' hnormal rfl
  rw [← List.concat_eq_append, List.nodup_concat] at hnodup
  exact ⟨⟨hnodup.2, hkeys⟩, List.singleton_inj.mp hkey, hnodup.1⟩

/-- **A registry is that of its entries**, registered one after the other. -/
theorem registered_entries {entries : List (String × Language)} (h : Normal ⟨entries⟩) :
    registered entries = ⟨entries⟩ := by
  induction entries using List.reverseRecOn with
  | nil => rfl
  | append_singleton entries entry ih =>
      obtain ⟨hbefore, hkey, hnew⟩ := normal_concat h
      rw [registered_concat, ih hbefore, register, hkey, put_of_not_mem hnew]

/-- **Whatever is registered and selected, the registry is that of some registrations**, so
what holds after registrations holds after any changes. -/
theorem changed_eq_registered (changes : List Change) :
    changes.foldl changed empty = registered (changes.foldl changed empty).entries :=
  (registered_entries (normal_changed changes)).symm

end Registry

end Workbench.Code
