/-
# What explanations cover

A reply explains hits when it names the label of every hit and nothing else. What is said of
them then stands in the order in which the labels first appear among the hits, and is the
first that the reply says of each.

* `align_eq_ok`, `align_of_stranger`, `align_of_gap` — the three ways in which a reply is taken.
* `explain_covers` — **explanations cover the hits exactly**, and one question is asked for
  them.
-/

import Mathlib.Data.List.Basic
import Workbench.Index.Explanation
import Workbench.Proofs.Attempt

namespace Workbench

open Workbench.Service Workbench.Index

/-- The generator that also notes what it is asked. -/
def Service.Generator.noting {σ : Type} (generate : Generator σ) :
    Generator (σ × List (String × String)) := fun system prompt state =>
  ((generate system prompt state.1).1,
    ((generate system prompt state.1).2, state.2 ++ [(system, prompt)]))

namespace Index

variable {explanations answer : List Explanation} {labels missing : List String} {label : String}

/-! ### The order of first appearance -/

theorem mem_firsts {s : String} : s ∈ firsts labels ↔ s ∈ labels := by
  induction labels with
  | nil => rfl
  | cons first rest ih =>
      by_cases heq : s = first
      · simp [firsts, heq]
      · simp [firsts, heq, ih]

/-- The first appearances come in the order of their places. -/
theorem pairwise_firsts (labels : List String) :
    (firsts labels).Pairwise fun s t => labels.idxOf s < labels.idxOf t := by
  induction labels with
  | nil => exact .nil
  | cons first rest ih =>
      have hidx {s : String} (h : s ≠ first) : (first :: rest).idxOf s = rest.idxOf s + 1 :=
        List.idxOf_cons_ne _ h.symm
      rw [firsts, List.pairwise_cons]
      constructor
      · intro s hs
        have hne : s ≠ first := by simpa using (List.mem_filter.mp hs).2
        rw [List.idxOf_cons_self, hidx hne]
        exact Nat.succ_pos _
      · refine (ih.filter _).imp_of_mem ?_
        intro s t hs ht hlt
        have hne : s ≠ first := by simpa using (List.mem_filter.mp hs).2
        have hne' : t ≠ first := by simpa using (List.mem_filter.mp ht).2
        rw [hidx hne, hidx hne']
        exact Nat.succ_lt_succ hlt

/-! ### Taking a reply -/

/-- A reply names nothing but labels. -/
def MentionsOnly (explanations : List Explanation) (labels : List String) : Prop :=
  ∀ e ∈ explanations, e.path ∈ labels

/-- A reply names a label. -/
def Mentions (explanations : List Explanation) (label : String) : Prop :=
  ∃ e ∈ explanations, e.path = label

/-- An explanation is the first that a reply gives of what it names. -/
def FirstIn (explanations : List Explanation) (e : Explanation) : Prop :=
  ∃ before after, explanations = before ++ e :: after ∧ ∀ b ∈ before, b.path ≠ e.path

theorem find?_stranger_eq_none :
    explanations.find? (fun e => !labels.contains e.path) = none ↔ MentionsOnly explanations labels := by
  simp [List.find?_eq_none, MentionsOnly]

theorem textFor?_eq_some_iff {text : String} :
    textFor? label explanations = some text ↔ FirstIn explanations ⟨label, text⟩ := by
  rw [textFor?, Option.map_eq_some_iff]
  constructor
  · rintro ⟨e, hfind, rfl⟩
    obtain ⟨hpath, before, after, rfl, hbefore⟩ := List.find?_eq_some_iff_append.mp hfind
    obtain rfl : e.path = label := by simpa using hpath
    exact ⟨before, after, rfl, fun b hb => by simpa using hbefore b hb⟩
  · rintro ⟨before, after, rfl, hbefore⟩
    refine ⟨⟨label, text⟩, List.find?_eq_some_iff_append.mpr ⟨by simp, before, after, rfl, ?_⟩, rfl⟩
    intro b hb
    simpa using hbefore b hb

theorem isNone_textFor?_iff :
    (textFor? label explanations).isNone = true ↔ ¬ Mentions explanations label := by
  simp [textFor?, Mentions]

/-- The explanations of some labels, as a reply gives them first. -/
theorem mem_filterMap_iff {e : Explanation} :
    e ∈ labels.filterMap (fun l => (textFor? l explanations).map (⟨l, ·⟩)) ↔
      e.path ∈ labels ∧ FirstIn explanations e := by
  simp only [List.mem_filterMap, Option.map_eq_some_iff, textFor?_eq_some_iff]
  constructor
  · rintro ⟨l, hl, text, hfirst, rfl⟩
    exact ⟨hl, hfirst⟩
  · rintro ⟨hl, hfirst⟩
    exact ⟨e.path, hl, e.text, hfirst, rfl⟩

/-- If all labels are named, there is one explanation for each, in their order. -/
theorem map_path_filterMap (h : ∀ l ∈ labels, Mentions explanations l) :
    (labels.filterMap fun l => (textFor? l explanations).map (⟨l, ·⟩ : String → Explanation)).map
      (·.path) = labels := by
  induction labels with
  | nil => rfl
  | cons l rest ih =>
      have hrest := ih fun m hm => h m (.tail _ hm)
      cases htext : textFor? l explanations with
      | none =>
          have hnone := isNone_textFor?_iff.mp (Option.isNone_iff_eq_none.mpr htext)
          exact absurd (h l (.head _)) hnone
      | some text => simp [htext, hrest]

/-- **A reply that covers the labels** gives one explanation for each. -/
theorem align_eq_ok (hknown : MentionsOnly explanations labels)
    (hall : ∀ l ∈ labels, Mentions explanations l) :
    ∃ answer, align explanations labels = .ok answer ∧ answer.map (·.path) = firsts labels ∧
      ∀ e ∈ answer, FirstIn explanations e := by
  have hnamed : ∀ l ∈ firsts labels, Mentions explanations l := fun l hl => hall l (mem_firsts.mp hl)
  have hmissing : (firsts labels).filter (fun l => (textFor? l explanations).isNone) = [] := by
    rw [List.filter_eq_nil_iff]
    intro l hl hnone
    exact isNone_textFor?_iff.mp hnone (hnamed l hl)
  refine ⟨_, ?_, map_path_filterMap hnamed, fun e he => (mem_filterMap_iff.mp he).2⟩
  rw [align, find?_stranger_eq_none.mpr hknown]
  simp only [hmissing]

/-- **A reply that names a stranger** is refused for the first of them. -/
theorem align_of_stranger {before after : List Explanation} {e : Explanation}
    (h : explanations = before ++ e :: after) (hbefore : MentionsOnly before labels)
    (hstranger : e.path ∉ labels) : align explanations labels = .error (.unknownPath e.path) := by
  have hfind : explanations.find? (fun e => !labels.contains e.path) = some e := by
    refine List.find?_eq_some_iff_append.mpr ⟨by simpa using hstranger, before, after, h, ?_⟩
    intro b hb
    simpa using hbefore b hb
  rw [align, hfind]

/-- **A reply that leaves labels out** is refused for all of them, in their order. -/
theorem align_of_gap (hknown : MentionsOnly explanations labels)
    (hgap : ∃ l ∈ labels, ¬ Mentions explanations l) :
    ∃ missing, align explanations labels = .error (.unexplained missing) ∧
      (missing.Pairwise fun s t => labels.idxOf s < labels.idxOf t) ∧
      ∀ l, l ∈ missing ↔ l ∈ labels ∧ ¬ Mentions explanations l := by
  have hmem (l : String) :
      l ∈ (firsts labels).filter (fun l => (textFor? l explanations).isNone) ↔
        l ∈ labels ∧ ¬ Mentions explanations l := by
    rw [List.mem_filter, mem_firsts, isNone_textFor?_iff]
  refine ⟨_, ?_, (pairwise_firsts labels).filter _, hmem⟩
  obtain ⟨l, hl, hnone⟩ := hgap
  rw [align, find?_stranger_eq_none.mpr hknown]
  simp only
  split
  · next hnil => exact absurd ((hmem l).mpr ⟨hl, hnone⟩) (by simp [hnil])
  · rfl

/-- A reply is taken if it names nothing but labels, and all of them. -/
theorem isOk_align_iff :
    (align explanations labels).isOk = true ↔
      MentionsOnly explanations labels ∧ ∀ l ∈ labels, Mentions explanations l := by
  constructor
  · intro hok
    obtain ⟨answer, hanswer⟩ := Attempt.isOk_iff.mp hok
    have hknown : MentionsOnly explanations labels := by
      cases hfind : explanations.find? fun e => !labels.contains e.path with
      | none => exact find?_stranger_eq_none.mp hfind
      | some first =>
          rw [align, hfind] at hanswer
          cases hanswer
    refine ⟨hknown, fun l hl => ?_⟩
    by_contra hnone
    obtain ⟨missing, herror, -⟩ := align_of_gap hknown ⟨l, hl, hnone⟩
    rw [hanswer] at herror
    cases herror
  · rintro ⟨hknown, hall⟩
    obtain ⟨answer, hanswer, -⟩ := align_eq_ok hknown hall
    rw [hanswer]
    rfl

/-! ### Explaining hits -/

section Explaining

variable {σ : Type} (generate : Generator σ) (query : String) (k : Nat) {hits : List Hit}
  (state : σ) (log : List (String × String))

/-- **One question is asked** if there are hits, and the answer is the same when it is noted. -/
theorem explain_noting (h : hits ≠ []) :
    explain (Generator.noting generate) query k hits (state, log) =
      ((explain generate query k hits state).1, (explain generate query k hits state).2,
        log ++ [(systemPrompt, promptFor query k hits)]) := by
  simp only [explain, h, if_false, Generator.noting]
  cases hanswer : generate systemPrompt (promptFor query k hits) state with
  | mk result final =>
      cases result with
      | error chain => rfl
      | ok reply => rfl

theorem explain_of_reply (h : hits ≠ []) {reply : String} {final : σ}
    (hreply : generate systemPrompt (promptFor query k hits) state = (.ok reply, final))
    (hexplanations : explanationsOf reply = .ok explanations) :
    (explain generate query k hits state).1 = align explanations (hits.map (·.label)) := by
  simp only [explain, h, if_false, hreply, hexplanations, Attempt.ok_bind]

end Explaining

/-- **Explanations cover the hits exactly.** No question is asked without hits, and one with
them. The explanations of a reply are taken if and only if they name nothing but labels of
hits, and all of them; then there is one for each label, in the order in which the labels
first appear, and it is the first that the reply gives. Otherwise the fault is the first
strange path, or else all labels that are left out, in that order, and the message names them. -/
theorem explain_covers {σ : Type} (generate : Generator σ) (query : String) (k : Nat)
    (hits : List Hit) (state : σ) (log : List (String × String)) (labels : List String)
    (hlabels : labels = hits.map (·.label)) :
    (hits = [] →
      explain (Generator.noting generate) query k hits (state, log) = (.ok [], state, log)) ∧
    (hits ≠ [] →
      explain (Generator.noting generate) query k hits (state, log) =
        ((explain generate query k hits state).1, (explain generate query k hits state).2,
          log ++ [(systemPrompt, promptFor query k hits)])) ∧
    (hits ≠ [] → ∀ reply final explanations,
      generate systemPrompt (promptFor query k hits) state = (.ok reply, final) →
      explanationsOf reply = .ok explanations →
        ((explain generate query k hits state).1.isOk = true ↔
          MentionsOnly explanations labels ∧ ∀ l ∈ labels, Mentions explanations l) ∧
        (∀ answer, (explain generate query k hits state).1 = .ok answer →
          ((answer.map (·.path)).Pairwise fun s t => labels.idxOf s < labels.idxOf t) ∧
          (∀ l, l ∈ answer.map (·.path) ↔ l ∈ labels) ∧
          ∀ e ∈ answer, FirstIn explanations e) ∧
        (∀ before e after, explanations = before ++ e :: after → MentionsOnly before labels →
          e.path ∉ labels →
            (explain generate query k hits state).1 = .error (.unknownPath e.path) ∧
            (explain generate query k hits state).1.mapError (·.message) =
              .error ("Explanation names " ++ e.path ++
                " which is not among the search results")) ∧
        (MentionsOnly explanations labels → (∃ l ∈ labels, ¬ Mentions explanations l) →
          ∃ missing, (explain generate query k hits state).1 = .error (.unexplained missing) ∧
            (explain generate query k hits state).1.mapError (·.message) =
              .error ("No explanation returned for " ++ ", ".intercalate missing) ∧
            (missing.Pairwise fun s t => labels.idxOf s < labels.idxOf t) ∧
            ∀ l, l ∈ missing ↔ l ∈ labels ∧ ¬ Mentions explanations l)) := by
  subst hlabels
  refine ⟨?_, explain_noting generate query k state log, ?_⟩
  · rintro rfl
    rfl
  · intro hhits reply final explanations hreply hexplanations
    rw [explain_of_reply generate query k state hhits hreply hexplanations]
    refine ⟨isOk_align_iff, ?_, ?_, ?_⟩
    · intro answer hanswer
      obtain ⟨hknown, hall⟩ := isOk_align_iff.mp (Attempt.isOk_iff.mpr ⟨answer, hanswer⟩)
      obtain ⟨answer', hanswer', hpaths, hfirst⟩ := align_eq_ok hknown hall
      obtain rfl : answer' = answer := Except.ok.inj (hanswer'.symm.trans hanswer)
      rw [hpaths]
      exact ⟨pairwise_firsts _, fun l => mem_firsts, hfirst⟩
    · intro before e after hsplit hbefore hstranger
      have hrefused := align_of_stranger hsplit hbefore hstranger
      exact ⟨hrefused, congrArg _ hrefused⟩
    · intro hknown hgap
      obtain ⟨missing, hrefused, hmissing⟩ := align_of_gap hknown hgap
      exact ⟨missing, hrefused, congrArg _ hrefused, hmissing⟩

/-! ### A sample -/

/-- Two chunks of a file and one of a function. -/
def sampleHits : List Hit :=
  [⟨"a", none, .file, 0, "x", ⟨0⟩⟩, ⟨"a", none, .file, 1, "y", ⟨0⟩⟩,
    ⟨"b", some "f", .definition, 0, "z", ⟨0⟩⟩]

/-- A reply that names the function first, and again. -/
def sampleReply : String :=
  "[\x7b\"file_path\":\"b:f\",\"explanation\":\"2\"\x7d,\x7b\"file_path\":\"a\",\"explanation\":\"1\"\x7d,\x7b\"file_path\":\"b:f\",\"explanation\":\"3\"\x7d]"

/-- What the reply says. -/
def sampleExplanations : List Explanation :=
  [⟨"b:f", "2"⟩, ⟨"a", "1"⟩, ⟨"b:f", "3"⟩]

/-- A generator that always gives the reply, and counts. -/
def sampleGenerator : Generator Nat := fun _ _ n => (.ok sampleReply, n + 1)

theorem explanationsOf_sampleReply : explanationsOf sampleReply = .ok sampleExplanations := by
  decide +kernel

theorem explain_covers_sampleHits :
    ∃ answer, (explain sampleGenerator "q" 3 sampleHits 0).1 = .ok answer ∧
      ((answer.map (·.path)).Pairwise fun s t =>
        ["a", "a", "b:f"].idxOf s < ["a", "a", "b:f"].idxOf t) ∧
      (∀ l, l ∈ answer.map (·.path) ↔ l ∈ ["a", "a", "b:f"]) ∧
      ∀ e ∈ answer, FirstIn sampleExplanations e := by
  obtain ⟨-, -, hreply⟩ :=
    explain_covers sampleGenerator "q" 3 sampleHits 0 [] ["a", "a", "b:f"] (by decide)
  obtain ⟨hok, hanswer, -, -⟩ :=
    hreply (by decide) sampleReply 1 sampleExplanations rfl explanationsOf_sampleReply
  have hcovered : MentionsOnly sampleExplanations ["a", "a", "b:f"] ∧
      ∀ l ∈ ["a", "a", "b:f"], Mentions sampleExplanations l := by
    simp [MentionsOnly, Mentions, sampleExplanations]
  obtain ⟨answer, hresult⟩ := Attempt.isOk_iff.mp (hok.mpr hcovered)
  exact ⟨answer, hresult, hanswer answer hresult⟩

end Index

end Workbench
