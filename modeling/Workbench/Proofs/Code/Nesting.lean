/-
# Outlines that fit

An outline fits a text where every construct lies inside the one that holds it, and behind the
ones before it there. In such an outline the stretches of any two constructs lie apart, or one
inside the other.

* `Outline.Fits` — an outline of a stretch of text.
* `Outline.pairwise_located`, `Outline.Fits.nested` — **what comes later** lies inside or behind.
* `Outline.map_located_nest`, `Outline.fits_nest_iff` — outlines made of lists of constructs hold
  all of them, and which of these outlines fit.
-/

import Mathlib.Data.List.Pairwise
import Mathlib.Data.List.Sort
import Workbench.Proofs.Code.Addresses

namespace Workbench.Code

variable {c a b : Construct} {outline : Outline} {first start stop : Nat}

/-! ### Stretches -/

/-- A construct lies in a stretch of the text, and its name in it. -/
structure Construct.Within (c : Construct) (start stop : Nat) : Prop where
  starts : start ≤ c.start
  named : c.start ≤ c.nameStart
  name : c.nameStart ≤ c.nameStop
  stops : c.nameStop ≤ c.stop
  ends : c.stop ≤ stop

instance (c : Construct) (start stop : Nat) : Decidable (c.Within start stop) :=
  decidable_of_iff (start ≤ c.start ∧ c.start ≤ c.nameStart ∧ c.nameStart ≤ c.nameStop ∧
      c.nameStop ≤ c.stop ∧ c.stop ≤ stop)
    ⟨fun ⟨starts, named, name, stops, ends⟩ => ⟨starts, named, name, stops, ends⟩,
      fun h => ⟨h.starts, h.named, h.name, h.stops, h.ends⟩⟩

/-- The stretch of a construct does not end before it starts. -/
theorem Construct.Within.start_le_stop (h : c.Within start stop) : c.start ≤ c.stop :=
  (h.named.trans h.name).trans h.stops

theorem Construct.Within.mono {start' stop' : Nat} (h : c.Within start stop)
    (hstart : start' ≤ start) (hstop : stop ≤ stop') : c.Within start' stop' where
  starts := hstart.trans h.starts
  named := h.named
  name := h.name
  stops := h.stops
  ends := h.ends.trans hstop

/-- The first construct starts no later than the second, which lies inside it or behind it. -/
def Construct.Precedes (a b : Construct) : Prop :=
  a.start ≤ b.start ∧ (b.stop ≤ a.stop ∨ a.stop ≤ b.start)

/-- The stretches of two constructs have nothing in common, or one holds the other. -/
def Construct.Nested (a b : Construct) : Prop :=
  a.stop ≤ b.start ∨ b.stop ≤ a.start ∨
    (a.start ≤ b.start ∧ b.stop ≤ a.stop) ∨ (b.start ≤ a.start ∧ a.stop ≤ b.stop)

theorem Construct.Nested.refl (c : Construct) : c.Nested c :=
  .inr (.inr (.inl ⟨le_refl _, le_refl _⟩))

theorem Construct.Nested.symm (h : a.Nested b) : b.Nested a := by
  rcases h with h | h | h | h
  · exact .inr (.inl h)
  · exact .inl h
  · exact .inr (.inr (.inr h))
  · exact .inr (.inr (.inl h))

theorem Construct.Precedes.nested (h : a.Precedes b) : a.Nested b := by
  obtain ⟨hstart, hinside | hbehind⟩ := h
  · exact .inr (.inr (.inl ⟨hstart, hinside⟩))
  · exact .inl hbehind

namespace Outline

/-! ### Outlines -/

mutual

/-- The construct of a node lies in a stretch of the text, and the others inside it. -/
def Node.Fits (start stop : Nat) : Node → Prop
  | .mk c children => c.Within start stop ∧ Fits c.start c.stop children

/-- The constructs of an outline lie in a stretch of the text, one after the other. -/
def Fits (start stop : Nat) : List Node → Prop
  | [] => True
  | node :: rest => Node.Fits start stop node ∧ Fits node.construct.stop stop rest

end

mutual

/-- Whether a node fits can be computed. -/
def Node.decidableFits (start stop : Nat) : (node : Node) → Decidable (Node.Fits start stop node)
  | .mk c children =>
      @instDecidableAnd _ _ inferInstance (decidableFits c.start c.stop children)

/-- Whether an outline fits can be computed. -/
def decidableFits (start stop : Nat) : (outline : List Node) → Decidable (Fits start stop outline)
  | [] => .isTrue trivial
  | node :: rest =>
      @instDecidableAnd _ _ (Node.decidableFits start stop node)
        (decidableFits node.construct.stop stop rest)

end

instance (start stop : Nat) (outline : Outline) : Decidable (Fits start stop outline) :=
  decidableFits start stop outline

/-! ### The order of constructs -/

mutual

/-- What is in a node lies in the stretch of its construct. -/
theorem Node.within_of_mem : ∀ (start stop : Nat) (node : Node), Node.Fits start stop node →
    ∀ e ∈ Node.located node, e.2.Within node.construct.start node.construct.stop
  | start, stop, .mk c children, ⟨hc, hchildren⟩, e, mem => by
      rw [Node.located] at mem
      rcases List.mem_cons.mp mem with rfl | hbelow
      · exact ⟨le_refl _, hc.named, hc.name, hc.stops, le_refl _⟩
      · exact within_of_mem c.start c.stop 0 children hchildren e hbelow

/-- What is in an outline lies in its stretch. -/
theorem within_of_mem : ∀ (start stop first : Nat) (outline : List Node), Fits start stop outline →
    ∀ e ∈ located first outline, e.2.Within start stop
  | _, _, _, [], _, e, mem => by cases mem
  | start, stop, first, node :: rest, ⟨hnode, hrest⟩, e, mem => by
      have hstretch : node.construct.Within start stop := by
        obtain ⟨c, children⟩ := node
        exact hnode.1
      rw [located] at mem
      rcases List.mem_append.mp mem with hfirst | hlater
      · obtain ⟨below, hbelow, rfl⟩ := List.mem_map.mp hfirst
        have hwithin := Node.within_of_mem start stop node hnode below hbelow
        exact hwithin.mono hstretch.starts hstretch.ends
      · have hwithin := within_of_mem node.construct.stop stop (first + 1) rest hrest e hlater
        exact hwithin.mono (hstretch.starts.trans hstretch.start_le_stop) (le_refl _)

end

mutual

theorem Node.pairwise_located : ∀ (start stop : Nat) (node : Node), Node.Fits start stop node →
    (Node.located node).Pairwise fun a b => a.2.Precedes b.2
  | start, stop, .mk c children, ⟨hc, hchildren⟩ => by
      rw [Node.located, List.pairwise_cons]
      refine ⟨?_, pairwise_located c.start c.stop 0 children hchildren⟩
      intro e mem
      have hinside := within_of_mem c.start c.stop 0 children hchildren e mem
      exact ⟨hinside.starts, .inl hinside.ends⟩

/-- **What comes later** lies inside what comes before it or behind that. -/
theorem pairwise_located : ∀ (start stop first : Nat) (outline : List Node),
    Fits start stop outline → (located first outline).Pairwise fun a b => a.2.Precedes b.2
  | _, _, _, [], _ => List.Pairwise.nil
  | start, stop, first, node :: rest, ⟨hnode, hrest⟩ => by
      rw [located, List.pairwise_append]
      refine ⟨?_, pairwise_located _ stop (first + 1) rest hrest, ?_⟩
      · exact (Node.pairwise_located start stop node hnode).map _ fun _ _ h => h
      · intro a ha b hb
        obtain ⟨below, hbelow, rfl⟩ := List.mem_map.mp ha
        have hbefore := Node.within_of_mem start stop node hnode below hbelow
        have hafter := within_of_mem _ stop (first + 1) rest hrest b hb
        have hapart : below.2.stop ≤ b.2.start := hbefore.ends.trans hafter.starts
        exact ⟨hbefore.start_le_stop.trans hapart, .inr hapart⟩

end

/-- Any two constructs lie apart, or one inside the other. -/
theorem Fits.nested (h : Fits start stop outline) {a b : Address × Construct}
    (ha : a ∈ located 0 outline) (hb : b ∈ located 0 outline) : a.2.Nested b.2 := by
  have hpairs := (pairwise_located start stop 0 outline h).imp fun hprecedes => hprecedes.nested
  have : Std.Symm fun a b : Address × Construct => a.2.Nested b.2 := ⟨fun _ _ => .symm⟩
  exact hpairs.forall_of_forall (fun e _ => Construct.Nested.refl e.2) ha hb

/-! ### Outlines made of lists -/

/-- No construct is lost when constructs are put below one another, and none comes twice. -/
theorem map_located_nest (first : Nat) (cs : List Construct) :
    (located first (nest cs)).map (·.2) = cs := by
  induction cs using nest.induct generalizing first with
  | case1 =>
      rw [nest]
      rfl
  | case2 c rest ihinside ihbehind =>
      have hinside := ihinside 0
      have hbehind := ihbehind (first + 1)
      have hnode : ((Node.located (.mk c (nest (rest.takeWhile (·.start < c.stop))))).map
          fun e => e.2) = c :: rest.takeWhile (·.start < c.stop) := by
        rw [Node.located, List.map_cons, hinside]
      rw [nest, located, List.map_append, List.map_map, hbehind]
      change ((Node.located _).map fun e => e.2) ++ _ = _
      rw [hnode, List.cons_append, List.takeWhile_append_dropWhile]

/-- From the first construct that starts behind a position all others start there. -/
theorem le_of_mem_dropWhile {cs : List Construct} (h : cs.Pairwise Construct.Precedes)
    (mem : c ∈ cs.dropWhile (·.start < stop)) : stop ≤ c.start := by
  induction cs with
  | nil => cases mem
  | cons b rest ih =>
      obtain ⟨hfirst, hrest⟩ := List.pairwise_cons.mp h
      by_cases hb : b.start < stop
      · rw [List.dropWhile_cons_of_pos (by simpa using hb)] at mem
        exact ih hrest mem
      · rw [List.dropWhile_cons_of_neg (by simpa using hb)] at mem
        rcases List.mem_cons.mp mem with rfl | hlater
        · exact Nat.le_of_not_lt hb
        · exact (Nat.le_of_not_lt hb).trans (hfirst c hlater).1

/-- **An outline made of a list fits** exactly if of any two of its constructs the later one lies
inside the earlier one or behind it. -/
theorem fits_nest_iff {cs : List Construct} :
    Fits start stop (nest cs) ↔
      cs.Pairwise Construct.Precedes ∧ ∀ c ∈ cs, c.Within start stop := by
  constructor
  · intro h
    have hpairs := pairwise_located start stop 0 _ h
    have hwithin := within_of_mem start stop 0 _ h
    rw [← map_located_nest 0 cs]
    refine ⟨List.pairwise_map.mpr hpairs, ?_⟩
    intro c mem
    obtain ⟨e, he, rfl⟩ := List.mem_map.mp mem
    exact hwithin e he
  · rintro ⟨hpairs, hwithin⟩
    induction cs using nest.induct generalizing start stop with
    | case1 =>
        rw [nest]
        trivial
    | case2 c rest ihinside ihbehind =>
        rw [nest]
        obtain ⟨hfirst, hrest⟩ := List.pairwise_cons.mp hpairs
        refine ⟨⟨hwithin c (.head _), ?_⟩, ?_⟩
        · apply ihinside (hrest.sublist (List.takeWhile_sublist _))
          intro b mem
          have hmem := (List.takeWhile_sublist _).subset mem
          have hb := hwithin b (.tail _ hmem)
          have hstart : b.start < c.stop := by
            simpa using List.all_eq_true.mp List.all_takeWhile b mem
          obtain ⟨hle, hinside | hbehind⟩ := hfirst b hmem
          · exact ⟨hle, hb.named, hb.name, hb.stops, hinside⟩
          · omega
        · apply ihbehind (hrest.sublist (List.dropWhile_sublist _))
          intro b mem
          have hb := hwithin b (.tail _ ((List.dropWhile_sublist _).subset mem))
          exact ⟨le_of_mem_dropWhile hrest mem, hb.named, hb.name, hb.stops, hb.ends⟩

end Outline

end Workbench.Code
