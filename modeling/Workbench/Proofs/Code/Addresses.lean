/-
# Addresses in outlines

An address leads to a construct of an outline: the number of an outermost construct, then the
number of one inside it, and so on.

* `Outline.at?` — the construct at an address.
* `Outline.located` — all constructs with their addresses, outer before inner.
* `Outline.mem_located_iff`, `Outline.nodup_located` — **every construct is found**, once.
* `Outline.ofKind_eq` — the constructs of a kind are those of all that have it.
-/

import Workbench.Code.Outline

namespace Workbench.Code

/-- The construct of a node. -/
def Node.construct : Node → Construct
  | .mk c _ => c

/-- What is inside the construct of a node. -/
def Node.children : Node → Outline
  | .mk _ children => children

/-- The way to a construct: a number at every depth. -/
abbrev Address := List Nat

namespace Outline

variable {kind : String} {address : Address} {c : Construct} {outline : Outline} {first : Nat}

/-- The construct at an address below a node. -/
def Node.at? : Address → Node → Option Construct
  | [], node => some node.construct
  | i :: rest, node => node.children[i]?.bind (Node.at? rest)

/-- The construct at an address. -/
def at? (outline : Outline) : Address → Option Construct
  | [] => none
  | i :: rest => outline[i]?.bind (Node.at? rest)

mutual

/-- The constructs of a node with their addresses below it, outer before inner. -/
def Node.located : Node → List (Address × Construct)
  | .mk c children => ([], c) :: located 0 children

/-- The constructs of an outline of which the outermost are numbered from `first`, with their
addresses, outer before inner. -/
def located (first : Nat) : List Node → List (Address × Construct)
  | [] => []
  | node :: rest =>
      (Node.located node).map (fun e => (first :: e.1, e.2)) ++ located (first + 1) rest

end

/-! ### The constructs of a kind -/

mutual

theorem Node.ofKind_eq (kind : String) : ∀ node : Node,
    Node.ofKind kind node = ((Node.located node).filter (·.2.kind == kind)).map (·.2)
  | .mk c children => by
      have hchildren := ofKind_eq kind 0 children
      by_cases hkind : c.kind = kind <;> simp [Node.ofKind, Node.located, hkind, hchildren]

/-- The constructs of a kind are those of all that have it. -/
theorem ofKind_eq (kind : String) : ∀ (first : Nat) (outline : List Node),
    ofKind kind outline = ((located first outline).filter (·.2.kind == kind)).map (·.2)
  | _, [] => rfl
  | first, node :: rest => by
      have hnode := Node.ofKind_eq kind node
      have hrest := ofKind_eq kind (first + 1) rest
      rw [ofKind, located, List.filter_append, List.map_append, hnode, hrest, List.filter_map,
        List.map_map]
      rfl

end

/-! ### Every construct is found -/

mutual

theorem Node.mem_located_iff : ∀ (address : Address) (node : Node),
    (address, c) ∈ Node.located node ↔ Node.at? address node = some c
  | address, .mk d children => by
      have hchildren := mem_located_iff address 0 children
      rw [Node.located, List.mem_cons, hchildren]
      cases address with
      | nil => simp [Node.at?, Node.construct, eq_comm]
      | cons i rest => simp [Node.at?, Node.children, at?, and_assoc]

/-- **Every construct is found** at its address. -/
theorem mem_located_iff : ∀ (address : Address) (first : Nat) (outline : List Node),
    (address, c) ∈ located first outline ↔
      ∃ i rest, address = (first + i) :: rest ∧ at? outline (i :: rest) = some c
  | _, _, [] => by simp [located, at?]
  | address, first, node :: later => by
      have hlater := mem_located_iff address (first + 1) later
      rw [located, List.mem_append, hlater, List.mem_map]
      constructor
      · rintro (⟨⟨below, d⟩, mem, heq⟩ | ⟨i, rest, rfl, hat⟩)
        · obtain ⟨rfl, hd⟩ : first :: below = address ∧ d = c := Prod.mk.inj heq
          rw [hd] at mem
          exact ⟨0, below, rfl, (Node.mem_located_iff below node).mp mem⟩
        · exact ⟨i + 1, rest, by rw [Nat.add_right_comm, Nat.add_assoc], hat⟩
      · rintro ⟨i, rest, rfl, hat⟩
        cases i with
        | zero => exact .inl ⟨(rest, c), (Node.mem_located_iff rest node).mpr hat, rfl⟩
        | succ i => exact .inr ⟨i, rest, by rw [Nat.add_right_comm, Nat.add_assoc], hat⟩

end

/-- What is at an address is among the constructs. -/
theorem mem_located_zero_iff :
    (address, c) ∈ located 0 outline ↔ at? outline address = some c := by
  rw [mem_located_iff]
  cases address with
  | nil => simp [at?]
  | cons i rest => simp [and_assoc]

/-! ### No address comes twice -/

theorem le_of_mem_located {e : Address × Construct} (h : e ∈ located first outline) :
    ∃ i rest, first ≤ i ∧ e.1 = i :: rest := by
  obtain ⟨i, rest, haddress, -⟩ := (mem_located_iff e.1 first outline).mp h
  exact ⟨first + i, rest, Nat.le_add_right .., haddress⟩

mutual

theorem Node.nodup_located : ∀ node : Node, ((Node.located node).map (·.1)).Nodup
  | .mk c children => by
      rw [Node.located, List.map_cons, List.nodup_cons]
      refine ⟨?_, nodup_located 0 children⟩
      intro mem
      obtain ⟨e, he, hnil⟩ := List.mem_map.mp mem
      obtain ⟨_, _, -, haddress⟩ := le_of_mem_located he
      cases hnil.symm.trans haddress

/-- No address comes twice. -/
theorem nodup_located : ∀ (first : Nat) (outline : List Node),
    ((located first outline).map (·.1)).Nodup
  | _, [] => List.nodup_nil
  | first, node :: rest => by
      rw [located, List.map_append, List.map_map, List.nodup_append]
      have hnode : ((Node.located node).map fun e => first :: e.1).Nodup :=
        (List.pairwise_map.mp (Node.nodup_located node)).map _
          fun a b hne heq => hne (List.cons.inj heq).2
      refine ⟨hnode, nodup_located (first + 1) rest, ?_⟩
      intro address hbefore other hafter heq
      obtain ⟨_, -, rfl⟩ := List.mem_map.mp hbefore
      obtain ⟨e, he, rfl⟩ := List.mem_map.mp hafter
      obtain ⟨i, _, hle, hi⟩ := le_of_mem_located he
      have hfirst : first = i := (List.cons.inj (heq.trans hi)).1
      omega

end

end Outline

end Workbench.Code
