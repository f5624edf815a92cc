/-
# Wildcards

Patterns for names and paths. A star stands for any run of characters but slashes, a
question mark for one of them, and brackets for one of those that they list. In patterns
for paths two stars stand for any run of directories.

* `Wildcard.fits` — a text is one that a pattern stands for.
* `Wildcard.ofText` — the pattern that a text is.
-/

namespace Workbench.Text

/-- A part of a pattern. -/
inductive Wildcard where
  | exactly (c : Char)
  | anyOne
  /-- One that is in one of the ranges, or one that is in none of them. -/
  | oneOf (inside : Bool) (ranges : List (Char × Char))
  | anyRun
  /-- Any directories, each with its slash. -/
  | directories
  | anything
  deriving DecidableEq, Repr

namespace Wildcard

/-- A character is one of those that a part in brackets stands for. -/
def inRanges (inside : Bool) (ranges : List (Char × Char)) (c : Char) : Bool :=
  ranges.any (fun (a, b) => a ≤ c && c ≤ b) == inside

/-- A text is one that a pattern stands for. In patterns for paths no wildcard stands for a
slash. -/
def fits (forPaths : Bool) : List Wildcard → List Char → Bool
  | [], s => s.isEmpty
  | .exactly a :: rest, c :: s => a == c && fits forPaths rest s
  | .anyOne :: rest, c :: s => !(forPaths && c == '/') && fits forPaths rest s
  | .oneOf inside ranges :: rest, c :: s =>
      !(forPaths && c == '/') && inRanges inside ranges c && fits forPaths rest s
  | .anyRun :: rest, [] => fits forPaths rest []
  | .anyRun :: rest, c :: s =>
      fits forPaths rest (c :: s) || (!(forPaths && c == '/') && fits forPaths (.anyRun :: rest) s)
  | .directories :: rest, s => fits forPaths rest s || laterDirectory rest s
  | .anything :: rest, [] => fits forPaths rest []
  | .anything :: rest, c :: s =>
      fits forPaths rest (c :: s) || fits forPaths (.anything :: rest) s
  | _ :: _, [] => false
termination_by pattern s => (pattern.length, s.length, 0)
where
  /-- A text behind one of its slashes is one that a pattern stands for. -/
  laterDirectory (rest : List Wildcard) : List Char → Bool
    | [] => false
    | c :: s => (c == '/' && fits forPaths rest s) || laterDirectory rest s
  termination_by s => (rest.length, s.length, 1)

/-- The ranges that brackets list, and what follows the closing one. -/
def ranges? : Bool → List Char → Option (List (Char × Char) × List Char)
  | _, [] => none
  | isFirst, ']' :: s => if isFirst then bracketItem ']' s else some ([], s)
  | _, '\\' :: c :: s => bracketItem c s
  | _, c :: s => bracketItem c s
where
  /-- A character or a range, and those after it. -/
  bracketItem (a : Char) : List Char → Option (List (Char × Char) × List Char)
    | '-' :: b :: s =>
        if b = ']' then (ranges? false ('-' :: b :: s)).map fun (rs, t) => ((a, a) :: rs, t)
        else (ranges? false s).map fun (rs, t) => ((a, b) :: rs, t)
    | s => (ranges? false s).map fun (rs, t) => ((a, a) :: rs, t)

/-- The part in brackets that a text starts with, after the opening one. -/
def brackets? : List Char → Option (Wildcard × List Char)
  | '!' :: s => (ranges? true s).map fun (rs, t) => (.oneOf false rs, t)
  | '^' :: s => (ranges? true s).map fun (rs, t) => (.oneOf false rs, t)
  | s => (ranges? true s).map fun (rs, t) => (.oneOf true rs, t)

/-- The pattern that characters are; `fresh` says that they are at the start or after a
slash, where two stars can stand for directories. -/
def ofChars : Nat → Bool → List Char → List Wildcard
  | 0, _, _ => []
  | _, _, [] => []
  | _ + 1, true, ['*', '*'] => [.anything]
  | fuel + 1, true, '*' :: '*' :: '/' :: s => .directories :: ofChars fuel true s
  | fuel + 1, _, '*' :: s => .anyRun :: ofChars fuel false (s.dropWhile (· == '*'))
  | fuel + 1, _, '?' :: s => .anyOne :: ofChars fuel false s
  | fuel + 1, _, '\\' :: c :: s => .exactly c :: ofChars fuel (c == '/') s
  | fuel + 1, _, '[' :: s =>
      match brackets? s with
      | some (part, t) => part :: ofChars fuel false t
      | none => .exactly '[' :: ofChars fuel false s
  | fuel + 1, _, c :: s => .exactly c :: ofChars fuel (c == '/') s

/-- The pattern that a text is. -/
def ofText (text : String) : List Wildcard :=
  ofChars (text.length + 1) true text.toList

end Wildcard

end Workbench.Text
