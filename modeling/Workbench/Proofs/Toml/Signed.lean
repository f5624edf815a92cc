/-
# Whole numbers of a document

A whole number is read only if a signed word holds it, and a document is put together from
what is read. So every whole number in a document, however deep in tables and arrays, is
one that a signed word holds.

* `Value.Signed` — a signed word holds every whole number of a value.
* `signed_of_value?` — reading values.
* `Draft.lines_cases`, `Draft.signed_of_lines` — what one line does, and reading on.
* `signed_of_parse?` — **the whole numbers of a document are signed words.**
-/

import Mathlib.Algebra.Group.Int.Defs
import Mathlib.Algebra.Group.Nat.Defs
import Workbench.Toml.Document

namespace Workbench

open Workbench.Json

/-- A signed word holds every whole number of the value. -/
inductive Json.Value.Signed : Value → Prop where
  | null : Signed .null
  | bool (b : Bool) : Signed (.bool b)
  | whole {n : Int} (low : -(2 ^ 63) ≤ n) (high : n < 2 ^ 63) : Signed (.number (.whole n))
  | double (x : Float) : Signed (.number (.double x))
  | string (s : String) : Signed (.string s)
  | array {items : List Value} (all : ∀ v ∈ items, Signed v) : Signed (.array items)
  | object {fields : List (String × Value)} (all : ∀ f ∈ fields, Signed f.2) :
      Signed (.object fields)

namespace Toml

variable {v : Value} {s rest : List Char}

/-! ### Scalars -/

theorem signed_of_whole? {n : Int} (h : whole? n = some v) : v.Signed := by
  unfold whole? at h
  split at h
  · next hfits =>
    rw [← Option.some.inj h]
    exact .whole hfits.1 hfits.2
  · cases h

theorem signed_of_integer? (h : integer? s = some (v, rest)) : v.Signed := by
  unfold integer? at h
  simp only [Option.bind_eq_bind] at h
  split at h
  all_goals
    obtain ⟨⟨digits, left⟩, -, h⟩ := Option.bind_eq_some_iff.mp h
    obtain ⟨n, hn, h⟩ := Option.bind_eq_some_iff.mp h
    obtain ⟨rfl, -⟩ := Prod.mk.inj (Option.some.inj h)
    exact signed_of_whole? hn

theorem signed_of_finite? {digits : List Char} {exponent : Int}
    (h : finite? digits exponent = some v) : v.Signed := by
  have hdouble (x : Float)
      (h : (if x.isInf then none else some (.number (.double x))) = some v) : v.Signed := by
    split at h
    · cases h
    · exact Option.some.inj h ▸ .double x
  unfold finite? at h
  simp only at h
  split at h
  · exact Option.some.inj h ▸ .double _
  · split at h
    · cases h
    · split at h
      · exact hdouble _ h
      · exact hdouble _ h

theorem signed_of_finite?_bind {digits left : List Char} {exponent : Int}
    (h : ((finite? digits exponent).bind fun x => some (x, left)) = some (v, rest)) : v.Signed := by
  obtain ⟨x, hx, h⟩ := Option.bind_eq_some_iff.mp h
  obtain ⟨rfl, -⟩ := Prod.mk.inj (Option.some.inj h)
  exact signed_of_finite? hx

theorem signed_of_float? (h : float? s = some (v, rest)) : v.Signed := by
  unfold float? at h
  simp only [Option.bind_eq_bind] at h
  split at h
  · obtain ⟨rfl, -⟩ := Prod.mk.inj (Option.some.inj h)
    exact .double 0.0
  · obtain ⟨rfl, -⟩ := Prod.mk.inj (Option.some.inj h)
    exact .double 0.0
  · obtain ⟨whole, -, h⟩ := Option.bind_eq_some_iff.mp h
    split at h
    · obtain ⟨fraction, -, h⟩ := Option.bind_eq_some_iff.mp h
      split at h
      · exact signed_of_finite?_bind h
      · exact signed_of_finite?_bind h
    · obtain ⟨e, -, h⟩ := Option.bind_eq_some_iff.mp h
      exact signed_of_finite?_bind h

theorem signed_of_number? (h : number? s = some (v, rest)) : v.Signed := by
  unfold number? at h
  split at h
  · obtain ⟨rfl, -⟩ := Prod.mk.inj (Option.some.inj h)
    refine .object fun f mem => ?_
    rw [List.mem_singleton.mp mem]
    exact .string ""
  · split at h
    · next found hfloat => exact signed_of_float? (hfloat.trans h)
    · exact signed_of_integer? h

/-! ### Parts of a document -/

/-- A signed word holds every whole number of the part. -/
inductive Node.Signed : Node → Prop where
  | leaf {v : Value} (value : v.Signed) : Signed (.leaf v)
  | table {implied dotted : Bool} {entries : List (String × Node)}
      (all : ∀ e ∈ entries, Signed e.2) : Signed (.table implied dotted entries)
  | tables {items : List (List (String × Node))}
      (all : ∀ entries ∈ items, ∀ e ∈ entries, Signed e.2) : Signed (.tables items)

namespace Node

variable {name : String} {node : Node} {entries after : List (String × Node)}

/-- A signed word holds every whole number of the entries. -/
def AllSigned (entries : List (String × Node)) : Prop :=
  ∀ e ∈ entries, e.2.Signed

theorem allSigned_nil : AllSigned [] := by
  intro e mem
  cases mem

theorem signed_insert {fields : List (String × Value)} (hv : v.Signed)
    (h : ∀ f ∈ fields, f.2.Signed) : ∀ f ∈ Value.insert name v fields, f.2.Signed := by
  induction fields with
  | nil =>
    intro f mem
    rw [List.mem_singleton.mp mem]
    exact hv
  | cons first fields ih =>
    obtain ⟨other, old⟩ := first
    have hfirst := h _ (.head _)
    have hrest := ih fun f mem => h f (.tail _ mem)
    intro f mem
    unfold Value.insert at mem
    split at mem
    · rcases List.mem_cons.mp mem with rfl | mem
      · exact hv
      · exact h f mem
    · split at mem
      · rcases List.mem_cons.mp mem with rfl | mem
        · exact hv
        · exact h f (.tail _ mem)
      · rcases List.mem_cons.mp mem with rfl | mem
        · exact hfirst
        · exact hrest f mem

mutual

theorem signed_value : ∀ {node : Node}, node.Signed → (value node).Signed
  | .leaf _, .leaf hv => by
      rw [value]
      exact hv
  | .table _ _ entries, .table all => by
      rw [value]
      exact .object (signed_fields all)
  | .tables items, .tables all => by
      rw [value]
      exact .array (signed_objects all)

theorem signed_fields : ∀ {entries : List (String × Node)}, AllSigned entries →
    ∀ f ∈ fields entries, f.2.Signed
  | [], _ => by
      intro f mem
      rw [fields] at mem
      cases mem
  | (name, node) :: rest, h => by
      rw [fields]
      exact signed_insert (signed_value (h _ (.head _)))
        (signed_fields fun e mem => h e (.tail _ mem))

theorem signed_objects : ∀ {items : List (List (String × Node))},
    (∀ entries ∈ items, AllSigned entries) → ∀ v ∈ objects items, v.Signed
  | [], _ => by
      intro v mem
      rw [objects] at mem
      cases mem
  | entries :: rest, h => by
      intro v mem
      rw [objects] at mem
      rcases List.mem_cons.mp mem with rfl | mem
      · exact .object (signed_fields (h entries (.head _)))
      · exact signed_objects (fun entries mem => h entries (.tail _ mem)) v mem

end

theorem signed_of_find? (h : AllSigned entries) (hfind : find? name entries = some node) :
    node.Signed := by
  obtain ⟨e, he, rfl⟩ := Option.map_eq_some_iff.mp hfind
  exact h e (List.mem_of_find?_eq_some he)

theorem allSigned_append {more : List (String × Node)} (h : AllSigned entries)
    (hmore : AllSigned more) : AllSigned (entries ++ more) := by
  intro e mem
  rcases List.mem_append.mp mem with mem | mem
  · exact h e mem
  · exact hmore e mem

theorem allSigned_single (h : node.Signed) : AllSigned [(name, node)] := by
  intro e mem
  rw [List.mem_singleton.mp mem]
  exact h

theorem allSigned_put (hnode : node.Signed) (h : AllSigned entries) :
    AllSigned (put name node entries) := by
  induction entries with
  | nil => exact allSigned_single hnode
  | cons first rest ih =>
    obtain ⟨other, old⟩ := first
    have hrest := ih fun e mem => h e (.tail _ mem)
    intro e mem
    unfold put at mem
    split at mem
    · rcases List.mem_cons.mp mem with rfl | mem
      · exact hnode
      · exact h e (.tail _ mem)
    · rcases List.mem_cons.mp mem with rfl | mem
      · exact h _ (.head _)
      · exact hrest e mem

theorem allSigned_erase (h : AllSigned entries) : AllSigned (erase name entries) := by
  intro e mem
  exact h e (List.mem_filter.mp mem).1

/-- **A change at the end of a path** keeps what every part has, if the change does. -/
theorem allSigned_descend {dotted : Bool}
    {change : Bool → List (String × Node) → Option (List (String × Node))}
    (hchange : ∀ {was entries after}, AllSigned entries → change was entries = some after →
      AllSigned after) {path : List String} {was : Bool} (h : AllSigned entries)
    (hafter : descend dotted change path was entries = some after) : AllSigned after := by
  induction path generalizing was entries after with
  | nil => exact hchange h hafter
  | cons name path ih =>
    unfold descend at hafter
    split at hafter
    · obtain ⟨inner, hinner, hafter⟩ := Option.bind_eq_some_iff.mp hafter
      rw [← Option.some.inj hafter]
      exact allSigned_put (.table (ih allSigned_nil hinner)) h
    · cases hafter
    · next implied wasDotted inner hfind =>
      split at hafter
      · cases hafter
      · obtain ⟨changed, hchanged, hafter⟩ := Option.bind_eq_some_iff.mp hafter
        have hinner : AllSigned inner := by
          cases signed_of_find? h hfind with
          | table all => exact all
        rw [← Option.some.inj hafter]
        exact allSigned_put (.table (ih hinner hchanged)) h
    · next items hfind =>
      split at hafter
      · cases hafter
      · next last hlast =>
        obtain ⟨changed, hchanged, hafter⟩ := Option.bind_eq_some_iff.mp hafter
        have hitems : ∀ entries ∈ items, AllSigned entries := by
          cases signed_of_find? h hfind with
          | tables all => exact all
        rw [← Option.some.inj hafter]
        refine allSigned_put (.tables fun entries mem => ?_) h
        rcases List.mem_append.mp mem with mem | mem
        · exact hitems entries (List.dropLast_subset items mem)
        · rw [List.mem_singleton.mp mem]
          exact ih (hitems last (List.mem_of_getLast? hlast)) hchanged

theorem allSigned_assign {path : List String} (hnode : node.Signed) (h : AllSigned entries)
    (hafter : assign path name node entries = some after) : AllSigned after := by
  refine allSigned_descend ?_ h hafter
  intro was entries after h hafter
  split at hafter
  · cases hafter
  · split at hafter
    · cases hafter
    · rw [← Option.some.inj hafter]
      exact allSigned_append h (allSigned_single hnode)

end Node

/-! ### Values -/

/-- Values, items of arrays and entries of tables that are read with so much fuel. -/
structure ReadsSigned (fuel : Nat) : Prop where
  value : ∀ {depth s v rest}, value? fuel depth s = some (v, rest) → v.Signed
  items : ∀ {depth s items rest}, array? fuel depth s = some (items, rest) → ∀ v ∈ items, v.Signed
  entries : ∀ {depth entries s after rest}, Node.AllSigned entries →
    inline? fuel depth entries s = some (after, rest) → Node.AllSigned after

namespace ReadsSigned

variable {fuel depth : Nat}

theorem value_succ (ih : ReadsSigned fuel) (h : value? (fuel + 1) depth s = some (v, rest)) :
    v.Signed := by
  unfold value? at h
  split at h
  · cases h
  · split at h
    · obtain ⟨⟨text, left⟩, -, heq⟩ := Option.map_eq_some_iff.mp h
      obtain ⟨rfl, -⟩ := Prod.mk.inj heq
      exact .string text
    · split at h
      · split at h
        · obtain ⟨⟨items, left⟩, hitems, heq⟩ := Option.map_eq_some_iff.mp h
          obtain ⟨rfl, -⟩ := Prod.mk.inj heq
          exact .array (ih.items hitems)
        · cases h
      · split at h
        · split at h
          · split at h
            · obtain ⟨rfl, -⟩ := Prod.mk.inj (Option.some.inj h)
              exact .object fun f mem => nomatch mem
            · obtain ⟨⟨entries, left⟩, hentries, heq⟩ := Option.map_eq_some_iff.mp h
              obtain ⟨rfl, -⟩ := Prod.mk.inj heq
              exact .object (Node.signed_fields (ih.entries Node.allSigned_nil hentries))
          · cases h
        · split at h
          · obtain ⟨left, -, heq⟩ := Option.map_eq_some_iff.mp h
            obtain ⟨rfl, -⟩ := Prod.mk.inj heq
            exact .bool true
          · split at h
            · obtain ⟨left, -, heq⟩ := Option.map_eq_some_iff.mp h
              obtain ⟨rfl, -⟩ := Prod.mk.inj heq
              exact .bool false
            · exact signed_of_number? h

theorem items_succ {items : List Value} (ih : ReadsSigned fuel)
    (h : array? (fuel + 1) depth s = some (items, rest)) : ∀ v ∈ items, v.Signed := by
  unfold array? at h
  simp only [Option.bind_eq_bind] at h
  intro v mem
  split at h
  · obtain ⟨rfl, -⟩ := Prod.mk.inj (Option.some.inj h)
    cases mem
  · obtain ⟨⟨first, left⟩, hfirst, h⟩ := Option.bind_eq_some_iff.mp h
    split at h
    · obtain ⟨⟨more, left⟩, hmore, h⟩ := Option.bind_eq_some_iff.mp h
      obtain ⟨rfl, -⟩ := Prod.mk.inj (Option.some.inj h)
      rcases List.mem_cons.mp mem with rfl | mem
      · exact ih.value hfirst
      · exact ih.items hmore v mem
    · obtain ⟨rfl, -⟩ := Prod.mk.inj (Option.some.inj h)
      rw [List.mem_singleton.mp mem]
      exact ih.value hfirst
    · cases h

theorem entries_succ {entries after : List (String × Node)} (ih : ReadsSigned fuel)
    (hentries : Node.AllSigned entries)
    (h : inline? (fuel + 1) depth entries s = some (after, rest)) : Node.AllSigned after := by
  unfold inline? at h
  simp only [Option.bind_eq_bind] at h
  obtain ⟨⟨path, left⟩, -, h⟩ := Option.bind_eq_some_iff.mp h
  split at h
  · split at h
    · cases h
    · obtain ⟨⟨v, left⟩, hv, h⟩ := Option.bind_eq_some_iff.mp h
      obtain ⟨assigned, hassigned, h⟩ := Option.bind_eq_some_iff.mp h
      have hall := Node.allSigned_assign (.leaf (ih.value hv)) hentries hassigned
      split at h
      · exact ih.entries hall h
      · obtain ⟨rfl, -⟩ := Prod.mk.inj (Option.some.inj h)
        exact hall
      · cases h
  · cases h

end ReadsSigned

theorem readsSigned (fuel : Nat) : ReadsSigned fuel := by
  induction fuel with
  | zero =>
    constructor
    · intro depth s v rest h
      rw [value?] at h
      cases h
    · intro depth s items rest h
      rw [array?] at h
      cases h
    · intro depth entries s after rest _ h
      rw [inline?] at h
      cases h
  | succ fuel ih => exact ⟨ih.value_succ, ih.items_succ, ih.entries_succ⟩

/-! ### Documents -/

namespace Draft

variable {d after : Draft} {root entries : List (String × Node)} {path : List String}

/-- A signed word holds every whole number of the draft. -/
structure Signed (d : Draft) : Prop where
  root : Node.AllSigned d.root
  current : Node.AllSigned d.current

theorem Signed.close (h : d.Signed) (hclose : d.close = some entries) :
    Node.AllSigned entries := by
  unfold Draft.close at hclose
  split at hclose
  · exact Option.some.inj hclose ▸ h.current
  · next name hname =>
    have htable : (Node.table false false d.current).Signed := .table h.current
    refine Node.allSigned_descend ?_ h.root hclose
    intro was entries after hentries hafter
    split at hafter
    · split at hafter
      · rw [← Option.some.inj hafter]
        refine Node.allSigned_append hentries
          (Node.allSigned_single (.tables fun entries mem => ?_))
        rw [List.mem_singleton.mp mem]
        exact h.current
      · next items hfind =>
        have hitems : ∀ entries ∈ items, Node.AllSigned entries := by
          cases Node.signed_of_find? hentries hfind with
          | tables all => exact all
        rw [← Option.some.inj hafter]
        refine Node.allSigned_put (.tables fun entries mem => ?_) hentries
        rcases List.mem_append.mp mem with mem | mem
        · exact hitems entries mem
        · rw [List.mem_singleton.mp mem]
          exact h.current
      · cases hafter
    · split at hafter
      · rw [← Option.some.inj hafter]
        exact Node.allSigned_append hentries (Node.allSigned_single htable)
      · rw [← Option.some.inj hafter]
        exact Node.allSigned_put htable hentries
      · cases hafter

theorem allSigned_of_lookup (h : Node.AllSigned root)
    (hfound : openTable.lookup path root = some entries) : Node.AllSigned entries := by
  induction path generalizing root with
  | nil => exact Option.some.inj hfound ▸ h
  | cons name path ih =>
    unfold openTable.lookup at hfound
    split at hfound
    · next inner hfind =>
      cases Node.signed_of_find? h hfind with
      | table all => exact ih all hfound
    · next items hfind =>
      obtain ⟨last, hlast, hfound⟩ := Option.bind_eq_some_iff.mp hfound
      cases Node.signed_of_find? h hfind with
      | tables all => exact ih (all last (List.mem_of_getLast? hlast)) hfound
    · cases hfound

theorem signed_of_openTable (h : Node.AllSigned root) (hopen : openTable path root = some d) :
    d.Signed := by
  obtain ⟨name, -, hopen⟩ := Option.bind_eq_some_iff.mp hopen
  obtain ⟨made, hmade, hopen⟩ := Option.bind_eq_some_iff.mp hopen
  obtain ⟨found, hfound, hopen⟩ := Option.bind_eq_some_iff.mp hopen
  have hroot : Node.AllSigned made := by
    refine Node.allSigned_descend ?_ h hmade
    intro was entries after hentries hafter
    exact Option.some.inj hafter ▸ hentries
  split at hopen
  · rw [← Option.some.inj hopen]
    exact ⟨hroot, Node.allSigned_nil⟩
  · next entries hfind =>
    obtain ⟨without, hwithout, hopen⟩ := Option.bind_eq_some_iff.mp hopen
    rw [← Option.some.inj hopen]
    constructor
    · refine Node.allSigned_descend ?_ hroot hwithout
      intro was entries after hentries hafter
      exact Option.some.inj hafter ▸ Node.allSigned_erase hentries
    · cases Node.signed_of_find? (allSigned_of_lookup hroot hfound) hfind with
      | table all => exact all
  · cases hopen

theorem signed_of_openItem (h : Node.AllSigned root) (hopen : openItem path root = some d) :
    d.Signed := by
  obtain ⟨name, -, hopen⟩ := Option.bind_eq_some_iff.mp hopen
  obtain ⟨made, hmade, hopen⟩ := Option.bind_eq_some_iff.mp hopen
  rw [← Option.some.inj hopen]
  refine ⟨Node.allSigned_descend ?_ h hmade, Node.allSigned_nil⟩
  intro was entries after hentries hafter
  split at hafter
  · exact Option.some.inj hafter ▸ hentries
  · exact Option.some.inj hafter ▸ hentries
  · cases hafter

/-- What one line does to what has been read: nothing, or it opens a table, alone or as one
more in an array, or adds a value. -/
inductive Step (d : Draft) : Draft → Prop where
  | blank : Step d d
  | item {path : List String} {root : List (String × Node)} {opened : Draft} :
      d.close = some root → openItem path root = some opened → Step d opened
  | table {path : List String} {root : List (String × Node)} {opened : Draft} :
      d.close = some root → openTable path root = some opened → Step d opened
  | key {path : List String} {name : String} {v : Value} {fuel depth : Nat}
      {current : List (String × Node)} {s rest : List Char} :
      value? fuel depth s = some (v, rest) →
      Node.assign path name (.leaf v) d.current = some current →
      Step d { d with current := current }

/-- Reading ends, or goes on after a line. -/
theorem lines_cases {fuel : Nat} (h : lines (fuel + 1) d s = some after) :
    after = d ∨ ∃ next rest, Step d next ∧ lines fuel next rest = some after := by
  unfold lines at h
  simp only [Option.bind_eq_bind] at h
  split at h
  · exact .inl (Option.some.inj h).symm
  · obtain ⟨⟨path, left⟩, -, h⟩ := Option.bind_eq_some_iff.mp h
    split at h
    · split at h
      · cases h
      · obtain ⟨root, hclose, h⟩ := Option.bind_eq_some_iff.mp h
        obtain ⟨opened, hopen, h⟩ := Option.bind_eq_some_iff.mp h
        obtain ⟨more, -, h⟩ := Option.bind_eq_some_iff.mp h
        exact .inr ⟨opened, more, .item hclose hopen, h⟩
    · cases h
  · obtain ⟨⟨path, left⟩, -, h⟩ := Option.bind_eq_some_iff.mp h
    split at h
    · split at h
      · cases h
      · obtain ⟨root, hclose, h⟩ := Option.bind_eq_some_iff.mp h
        obtain ⟨opened, hopen, h⟩ := Option.bind_eq_some_iff.mp h
        obtain ⟨more, -, h⟩ := Option.bind_eq_some_iff.mp h
        exact .inr ⟨opened, more, .table hclose hopen, h⟩
    · cases h
  · split at h
    · exact .inr ⟨d, _, .blank, h⟩
    · obtain ⟨⟨path, left⟩, -, h⟩ := Option.bind_eq_some_iff.mp h
      split at h
      · split at h
        · cases h
        · obtain ⟨⟨v, left⟩, hv, h⟩ := Option.bind_eq_some_iff.mp h
          obtain ⟨current, hcurrent, h⟩ := Option.bind_eq_some_iff.mp h
          obtain ⟨more, -, h⟩ := Option.bind_eq_some_iff.mp h
          exact .inr ⟨_, more, .key hv hcurrent, h⟩
      · cases h

/-- One line keeps that the whole numbers are signed words. -/
theorem Signed.step {next : Draft} (h : d.Signed) (hstep : Step d next) : next.Signed := by
  cases hstep with
  | blank => exact h
  | item hclose hopen => exact signed_of_openItem (h.close hclose) hopen
  | table hclose hopen => exact signed_of_openTable (h.close hclose) hopen
  | key hv hcurrent =>
    exact ⟨h.root, Node.allSigned_assign (.leaf ((readsSigned _).value hv)) h.current hcurrent⟩

/-- **Reading on, line by line**, keeps that the whole numbers are signed words. -/
theorem signed_of_lines {fuel : Nat} (h : d.Signed) (hlines : lines fuel d s = some after) :
    after.Signed := by
  induction fuel generalizing d s with
  | zero => cases hlines
  | succ fuel ih =>
    rcases lines_cases hlines with rfl | ⟨next, rest, hstep, hmore⟩
    · exact h
    · exact ih (h.step hstep) hmore

end Draft

/-- **The whole numbers of a document are signed words.** -/
theorem signed_of_parse? {text : String} (h : parse? text = some v) : v.Signed := by
  obtain ⟨d, hd, h⟩ := Option.bind_eq_some_iff.mp h
  obtain ⟨entries, hclose, h⟩ := Option.bind_eq_some_iff.mp h
  have hsigned := Draft.signed_of_lines ⟨Node.allSigned_nil, Node.allSigned_nil⟩ hd
  rw [← Option.some.inj h]
  exact .object (Node.signed_fields (hsigned.close hclose))

end Toml

end Workbench
