/-
# The units of a source

The units of a source of which the outline fits are the source itself and, kind by kind, all
constructs of the kind that have a name.

* `Outline.named` — the constructs of a kind that have a name.
* `slice?_byteOffset` — stretches in characters are stretches in bytes.
* `Language.units_complete` — **the units of a source**.
-/

import Mathlib
import Workbench.Code.Unit
import Workbench.Proofs.Code.Nesting
import Workbench.Proofs.Text.Position

namespace Workbench.Code

open Workbench.Text

variable {kind path source : String} {c : Construct} {outline : Outline} {start stop : Nat}

namespace Outline

/-! ### Constructs with a name -/

/-- The constructs of a kind that have a name, with their addresses. -/
def named (kind : String) (outline : Outline) : List (Address × Construct) :=
  (located 0 outline).filter fun e => e.2.kind == kind && decide (e.2.nameStart < e.2.nameStop)

theorem mem_named_iff {address : Address} : (address, c) ∈ named kind outline ↔
    outline.at? address = some c ∧ c.kind = kind ∧ c.nameStart < c.nameStop := by
  rw [named, List.mem_filter, mem_located_zero_iff]
  simp

theorem nodup_named (kind : String) (outline : Outline) :
    ((named kind outline).map (·.1)).Nodup :=
  (List.filter_sublist.map _).nodup (nodup_located 0 outline)

theorem Fits.pairwise_named (h : Fits start stop outline) (kind : String) :
    (named kind outline).Pairwise fun a b => a.2.start ≤ b.2.start :=
  ((pairwise_located start stop 0 outline h).filter _).imp fun hprecedes => hprecedes.1

end Outline

/-! ### Stretches of a text -/

/-- The position in bytes of a position in characters. -/
def byteOffset (source : List Char) (position : Nat) : Nat :=
  byteLength (source.take position)

theorem split_slice {text : List Char} (hle : start ≤ stop) :
    text = text.take start ++ slice text start stop ++ text.drop stop := by
  have hrest : text.drop stop = (text.drop start).drop (stop - start) := by
    rw [List.drop_drop, Nat.add_sub_cancel' hle]
  rw [slice, hrest, List.append_assoc, List.take_append_drop, List.take_append_drop]

/-- A stretch is what stands between the bytes at which it starts and ends. -/
theorem slice?_byteOffset {text : List Char} (hle : start ≤ stop) :
    slice? text (byteOffset text start) (byteOffset text stop) = some (slice text start stop) := by
  have htake : text.take stop = text.take start ++ slice text start stop := by
    rw [slice, ← List.take_add, Nat.add_sub_cancel' hle]
  have hslice := slice?_append (text.take start) (slice text start stop) (text.drop stop)
  rwa [← split_slice hle, ← byteLength_append, ← htake] at hslice

theorem slice_isInfix {text : List Char} {start' stop' : Nat} (hstart : start ≤ start')
    (hstop : stop' ≤ stop) : slice text start' stop' <:+: slice text start stop := by
  have hslice : slice text start' stop' =
      ((slice text start stop).drop (start' - start)).take (stop' - start') := by
    rw [slice, slice, List.drop_take, List.drop_drop, List.take_take, Nat.add_sub_cancel' hstart]
    congr 1
    omega
  rw [hslice]
  exact (List.take_prefix ..).isInfix.trans (List.drop_suffix ..).isInfix

theorem slice_eq_nil_iff {text : List Char} (hstop : stop ≤ text.length) :
    slice text start stop = [] ↔ stop ≤ start := by
  rw [← List.length_eq_zero_iff, slice, List.length_take, List.length_drop]
  omega

/-! ### Units -/

/-- The unit of a definition with a name. -/
def CodeUnit.ofNamed (path source : String) (c : Construct) : CodeUnit :=
  ⟨path, some (String.ofList (slice source.toList c.nameStart c.nameStop)), .definition,
    String.ofList (slice source.toList c.start c.stop)⟩

/-- A construct that lies in the source is a unit if it has a name. -/
theorem ofConstruct?_eq (h : c.Within 0 source.toList.length) :
    CodeUnit.ofConstruct? path source.toList c =
      if c.nameStart < c.nameStop then some (CodeUnit.ofNamed path source c) else none := by
  have hempty : slice source.toList c.nameStart c.nameStop = [] ↔ c.nameStop ≤ c.nameStart :=
    slice_eq_nil_iff (h.stops.trans h.ends)
  unfold CodeUnit.ofConstruct? CodeUnit.ofNamed
  by_cases hname : c.nameStart < c.nameStop
  · rw [if_pos hname, if_neg (fun hnil => absurd (hempty.mp hnil) (Nat.not_le_of_lt hname))]
  · rw [if_neg hname, if_pos (hempty.mpr (Nat.le_of_not_lt hname))]

namespace Language

variable {language : Language}

/-- The units of a source are the source and the constructs with a name, kind by kind. -/
theorem units_eq (path : String)
    (hfits : Outline.Fits 0 source.length (language.outline source.toList)) :
    language.units path source = CodeUnit.ofFile path source ::
      language.definitionKinds.flatMap fun kind =>
        (Outline.named kind (language.outline source.toList)).map
          fun e => CodeUnit.ofNamed path source e.2 := by
  unfold units unitsOf
  rw [List.filterMap_flatMap]
  congr 2
  funext kind
  rw [Outline.ofKind_eq kind 0, Outline.named, List.filterMap_map, List.filterMap_filter,
    ← List.filterMap_eq_map, List.filterMap_filter]
  refine List.filterMap_congr fun e mem => ?_
  have hwithin := Outline.within_of_mem 0 source.length 0 _ hfits e mem
  rw [Function.comp_apply, ofConstruct?_eq (by rwa [String.length_toList])]
  by_cases hkind : e.2.kind = kind <;> by_cases hname : e.2.nameStart < e.2.nameStop <;>
    simp [hkind, hname]

end Language

/-- A unit has the text of a construct, and its name, which is part of the text. -/
structure CodeUnit.Spells (unit : CodeUnit) (source : List Char) (c : Construct) : Prop where
  text : slice? source (byteOffset source c.start) (byteOffset source c.stop) =
    some unit.text.toList
  name : ∃ name, unit.name = some name ∧ name.toList <:+: unit.text.toList ∧
    slice? source (byteOffset source c.nameStart) (byteOffset source c.nameStop) =
      some name.toList

theorem spells_ofNamed (path : String) (h : c.Within start stop) :
    (CodeUnit.ofNamed path source c).Spells source.toList c := by
  constructor
  · rw [slice?_byteOffset h.start_le_stop, CodeUnit.ofNamed, String.toList_ofList]
  · refine ⟨_, rfl, ?_, ?_⟩
    · rw [CodeUnit.ofNamed, String.toList_ofList, String.toList_ofList]
      exact slice_isInfix h.named h.stops
    · rw [slice?_byteOffset h.name, String.toList_ofList]

namespace Language

/-- **The units of a source** are the source and, kind by kind, all constructs of the kind that
have a name, wherever they are nested, each once and in the order of their starts. Each has
the text of its construct, and of two constructs the texts lie apart or one inside the other. -/
theorem units_complete (language : Language) (path source : String) (outline : Outline)
    (hgiven : language.outline source.toList = outline)
    (hfits : Outline.Fits 0 source.length outline) :
    language.units path source = CodeUnit.ofFile path source ::
      language.definitionKinds.flatMap (fun kind =>
        (Outline.named kind outline).map fun e => CodeUnit.ofNamed path source e.2) ∧
    (∀ kind address c, (address, c) ∈ Outline.named kind outline ↔
      outline.at? address = some c ∧ c.kind = kind ∧ c.nameStart < c.nameStop) ∧
    (∀ kind, ((Outline.named kind outline).map (·.1)).Nodup ∧
      (Outline.named kind outline).Pairwise fun a b => a.2.start ≤ b.2.start) ∧
    (∀ kind, ∀ e ∈ Outline.named kind outline,
      (CodeUnit.ofNamed path source e.2).Spells source.toList e.2) ∧
    (∀ kind other, ∀ a ∈ Outline.named kind outline, ∀ b ∈ Outline.named other outline,
      a.2.Nested b.2) ∧
    (∀ grammar, language.definitionKinds = (java grammar).definitionKinds →
      language.units path source = CodeUnit.ofFile path source ::
        ((Outline.named "constructor_declaration" outline ++
          Outline.named "method_declaration" outline).map
            fun e => CodeUnit.ofNamed path source e.2)) := by
  subst hgiven
  have hunits := units_eq path hfits
  have hmem {kind : String} {e : Address × Construct}
      (mem : e ∈ Outline.named kind (language.outline source.toList)) :
      e ∈ Outline.located 0 (language.outline source.toList) := (List.mem_filter.mp mem).1
  refine ⟨hunits, fun _ _ _ => Outline.mem_named_iff, ?_, ?_, ?_, ?_⟩
  · intro kind
    exact ⟨Outline.nodup_named kind _, hfits.pairwise_named kind⟩
  · intro kind e mem
    have hwithin := Outline.within_of_mem 0 source.length 0 _ hfits e (hmem mem)
    exact spells_ofNamed path hwithin
  · intro kind other a ha b hb
    exact hfits.nested (hmem ha) (hmem hb)
  · intro grammar hkinds
    rw [hunits, hkinds, List.map_append]
    simp [java]

/-- A class with a method, in which another class has one, and with a constructor. -/
def nestedSource : String :=
  "class A \x7b\n  void m() \x7b new B() \x7b void n() \x7b\x7d \x7d; \x7d\n  A() \x7b\x7d\n\x7d\n"

/-- Its outline. -/
def nestedOutline : Outline :=
  [.mk ⟨"method_declaration", 12, 49, 17, 18⟩ [.mk ⟨"method_declaration", 33, 44, 38, 39⟩ []],
    .mk ⟨"constructor_declaration", 52, 58, 52, 53⟩ []]

/-- A grammar that gives this outline. -/
def nestedGrammar : Grammar :=
  ⟨none, fun _ => none, fun _ => some nestedOutline⟩

theorem units_complete_nestedSource :
    (java nestedGrammar).outline nestedSource.toList = nestedOutline ∧
    Outline.Fits 0 nestedSource.length nestedOutline ∧
    (java nestedGrammar).units "A.java" nestedSource = [CodeUnit.ofFile "A.java" nestedSource,
      ⟨"A.java", some "A", .definition, "A() \x7b\x7d"⟩,
      ⟨"A.java", some "m", .definition,
        "void m() \x7b new B() \x7b void n() \x7b\x7d \x7d; \x7d"⟩,
      ⟨"A.java", some "n", .definition, "void n() \x7b\x7d"⟩] := by
  have hgiven : (java nestedGrammar).outline nestedSource.toList = nestedOutline := rfl
  have hfits : Outline.Fits 0 nestedSource.length nestedOutline := by decide +kernel
  obtain ⟨-, -, -, -, -, hjava⟩ :=
    units_complete (java nestedGrammar) "A.java" nestedSource nestedOutline hgiven hfits
  refine ⟨hgiven, hfits, ?_⟩
  rw [hjava nestedGrammar rfl]
  decide +kernel

end Language

end Workbench.Code
