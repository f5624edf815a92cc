/-
# Lines of a text

A line is a stretch of a text up to and including a newline; a last stretch
without one is a line too. Splitting therefore loses nothing: the lines of a
text, put one after the other, are the text (`flatten_split`), and a text has a
line for every newline plus one for an unterminated end.

* `Lines.split` — the lines of a text, each with its own terminator.
* `Lines.number` — the numbered form of a text: every line behind its number,
  right-aligned in six columns, and a tab.
* `Lines.window` — the numbered lines around an edited stretch.
-/

namespace Workbench.Text

namespace Lines

/-- The lines of a text, each with the newline that ends it. -/
def split : List Char → List (List Char)
  | [] => []
  | c :: rest =>
      if c = '\n' then [c] :: split rest
      else match split rest with
        | [] => [[c]]
        | line :: lines => (c :: line) :: lines

/-- Splitting loses nothing. -/
theorem flatten_split : ∀ s : List Char, (split s).flatten = s
  | [] => rfl
  | c :: rest => by
      have ih := flatten_split rest
      unfold split
      split
      · simp [ih]
      · cases h : split rest with
        | nil => rw [h] at ih; simp at ih; simp [← ih]
        | cons line lines => rw [h] at ih; simp at ih; simp [← ih]

/-- No line is empty. -/
theorem ne_nil_of_mem_split : ∀ {s line : List Char}, line ∈ split s → line ≠ []
  | [], _, h => by simp [split] at h
  | c :: rest, line, h => by
      unfold split at h
      split at h
      · rcases List.mem_cons.mp h with rfl | h
        · simp
        · exact ne_nil_of_mem_split h
      · cases hs : split rest with
        | nil => rw [hs] at h; simp at h; simp [h]
        | cons first lines =>
            rw [hs] at h
            rcases List.mem_cons.mp h with rfl | h
            · simp
            · exact ne_nil_of_mem_split (hs ▸ List.mem_cons_of_mem _ h)

/-- The number of newlines of a text. -/
def newlines (s : List Char) : Nat :=
  s.count '\n'

/-- A number right-aligned in six columns; a longer one takes the room it needs. -/
def label (n : Nat) : List Char :=
  let digits := (toString n).toList
  List.replicate (6 - digits.length) ' ' ++ digits

/-- The lines, numbered from `first` on: label, tab, line. -/
def numberFrom (first : Nat) : List (List Char) → List Char
  | [] => []
  | line :: lines => label first ++ '\t' :: line ++ numberFrom (first + 1) lines

/-- The numbered form of a text. -/
def number (s : List Char) (first : Nat) : List Char :=
  numberFrom first (split s)

/-- The first line (counted from 0) that a window around `first` shows. -/
def windowStart (first context total : Nat) : Nat :=
  min (first - context) total

/-- The line (counted from 0) before which a window around `first` ends. -/
def windowStop (first span context total : Nat) : Nat :=
  min (first + max span 1 + context) total

/-- The numbered lines around an edit of `span` lines that begins at line
`first` (counted from 0): `context` lines above the first and below the last. -/
def window (s : List Char) (first span context : Nat) : List Char :=
  let lines := split s
  let start := windowStart first context lines.length
  let stop := windowStop first span context lines.length
  numberFrom (start + 1) ((lines.take stop).drop start)

end Lines

/-- The numbered form of `text`, counting from `first`. -/
def numberLines (text : String) (first : Nat) : String :=
  String.ofList (Lines.number text.toList first)

/-- The numbered lines of `text` around an edit. -/
def snippet (text : String) (first span context : Nat) : String :=
  String.ofList (Lines.window text.toList first span context)

end Workbench.Text
