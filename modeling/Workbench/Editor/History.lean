/-
# Edit histories

For every file the edits that can be undone, each with what the file held before it.
A file is known by a key; no more is asked of keys than that they can be compared.
-/

namespace Workbench.Editor

/-- A kind of edit. -/
inductive Operation where
  | create
  | replace
  | insert
  deriving DecidableEq, Repr

/-- The written form of a kind of edit. -/
def Operation.text : Operation → String
  | create => "Create"
  | replace => "StrReplace"
  | insert => "Insert"

/-- An edit that can be undone: what the file held before, or that there was none. -/
structure Change where
  previous : Option String
  operation : Operation
  deriving DecidableEq, Repr

/-- The edits of every file, oldest first. -/
structure History (κ : Type) where
  piles : List (κ × List Change)
  deriving DecidableEq, Repr

namespace History

variable {κ : Type} [DecidableEq κ]

/-- The history of no edit. -/
def empty : History κ := ⟨[]⟩

/-- The edits of a file. -/
def entries (h : History κ) (key : κ) : List Change :=
  ((h.piles.find? (·.1 == key)).map (·.2)).getD []

/-- Puts edits in the place of those of a file. -/
def put (key : κ) (changes : List Change) : List (κ × List Change) → List (κ × List Change)
  | [] => [(key, changes)]
  | (other, old) :: rest =>
      if other = key then (key, changes) :: rest else (other, old) :: put key changes rest

/-- The history with one more edit of a file. -/
def push (h : History κ) (key : κ) (change : Change) : History κ :=
  ⟨put key (h.entries key ++ [change]) h.piles⟩

/-- The last edit of a file, and the history without it. -/
def pop? (h : History κ) (key : κ) : Option (Change × History κ) :=
  (h.entries key).getLast?.map fun change =>
    (change, ⟨put key (h.entries key).dropLast h.piles⟩)

theorem entries_cons_self (key : κ) (changes : List Change) (rest : List (κ × List Change)) :
    (⟨(key, changes) :: rest⟩ : History κ).entries key = changes := by
  simp [entries]

theorem entries_cons_of_ne {key other : κ} (hne : other ≠ key) (changes : List Change)
    (rest : List (κ × List Change)) :
    (⟨(other, changes) :: rest⟩ : History κ).entries key = (⟨rest⟩ : History κ).entries key := by
  simp [entries, hne]

@[simp] theorem entries_put_self (key : κ) (changes : List Change)
    (piles : List (κ × List Change)) :
    (⟨put key changes piles⟩ : History κ).entries key = changes := by
  induction piles with
  | nil => exact entries_cons_self ..
  | cons stack rest ih =>
      obtain ⟨other, old⟩ := stack
      unfold put
      split
      · exact entries_cons_self ..
      · rename_i hne
        rw [entries_cons_of_ne hne, ih]

theorem entries_put_of_ne {key other : κ} (hne : other ≠ key) (changes : List Change)
    (piles : List (κ × List Change)) :
    (⟨put key changes piles⟩ : History κ).entries other = (⟨piles⟩ : History κ).entries other := by
  induction piles with
  | nil => exact entries_cons_of_ne hne.symm ..
  | cons stack rest ih =>
      obtain ⟨first, old⟩ := stack
      unfold put
      split
      · rename_i h
        subst h
        rw [entries_cons_of_ne hne.symm, entries_cons_of_ne hne.symm]
      · by_cases h : first = other
        · subst h
          rw [entries_cons_self, entries_cons_self]
        · rw [entries_cons_of_ne h, entries_cons_of_ne h, ih]

@[simp] theorem entries_push_self (h : History κ) (key : κ) (change : Change) :
    (h.push key change).entries key = h.entries key ++ [change] :=
  entries_put_self ..

theorem entries_push_of_ne (h : History κ) {key other : κ} (hne : other ≠ key) (change : Change) :
    (h.push key change).entries other = h.entries other :=
  entries_put_of_ne hne ..

end History

end Workbench.Editor
