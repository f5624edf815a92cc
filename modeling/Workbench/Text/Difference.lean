/-
# Differences between texts

Which lines have to go from one list of lines, and which have to come, to get another.
The lines that both share at the start and at the end stay. Of the rest, lines that
have no partner go or come at once; between the others a shortest way is searched from
both ends at a time. Where a run of changed lines could as well lie a few lines higher or
lower, it is put beside a run of the other side if it can be, and else as low as possible.

* `Difference.marks` — which lines go, and which come.
* `Difference.changes` — the runs of them, in order.
-/

namespace Workbench.Text.Difference

/-! ### Marked lines -/

/-- For every line of a text whether it is marked. -/
abbrev Marks := Array Bool

/-- A line is marked. -/
def marked (m : Marks) (i : Nat) : Bool :=
  (m[i]?).getD false

/-- The first line from one on that is not marked. -/
def endFrom (m : Marks) (i : Nat) : Nat :=
  i + ((m.toList.drop i).takeWhile (·)).length

/-- The first line of the run of marked lines that ends before a line. -/
def startBefore (m : Marks) (i : Nat) : Nat :=
  i - ((m.toList.take i).reverse.takeWhile (·)).length

/-- Marks lines. -/
def markAll (m : Marks) (lines : List Nat) : Marks :=
  lines.foldl (fun m i => m.set! i true) m

/-! ### Lines that matter -/

variable {α : Type} [BEq α]

/-- How many lines two lists share at the start. -/
def sharedStart : List α → List α → Nat
  | a :: as, b :: bs => if a == b then sharedStart as bs + 1 else 0
  | _, _ => 0

/-- How many partners a line has in the other text: none, a few, or many. -/
inductive Partners where
  | none
  | few
  | many
  deriving DecidableEq, Repr

/-- From so many partners on a line of a text with so many lines has many. -/
def manyFrom (lines : Nat) : Nat :=
  min (if lines = 0 then 1 else Nat.pow 2 (lines.log2 / 2 + 1)) 1024

/-- How many partners the lines of a text have in another. -/
def partners (a b : List α) : List Partners :=
  a.map fun line =>
    let count := b.countP (· == line)
    if count = 0 then .none else if manyFrom a.length ≤ count then .many else .few

/-- How many lines without partners, and how many with many, a run of them starts with;
only so many lines of it count. -/
def runOf (lines : List Partners) : Nat × Nat :=
  let run := (lines.take 100).takeWhile (· != .few)
  (run.count .none, run.count .many)

/-- A line with many partners is left out where most lines around it have none. -/
def isNoise (before after : List Partners) : Bool :=
  let (none₁, many₁) := runOf before
  let (none₂, many₂) := runOf after
  none₁ != 0 && none₂ != 0 && (many₁ + many₂ + 2) * 4 < many₁ + many₂ + 2 + none₁ + none₂

/-- The lines of a stretch that are compared, counted from a number; the lines before
are given the last one first. -/
def compared : Nat → List Partners → List Partners → List Nat
  | _, _, [] => []
  | i, before, p :: after =>
      let others := compared (i + 1) (p :: before) after
      match p with
      | .none => others
      | .few => i :: others
      | .many => if isNoise before after then others else i :: others

/-! ### Searching from both ends -/

/-- A part of two texts: intervals of their lines. -/
structure Box where
  first₁ : Nat
  last₁ : Nat
  first₂ : Nat
  last₂ : Nat

/-- How far a search got on every diagonal, counted in lines of the first text, and on
which diagonals it is. -/
structure Front where
  reach : Array Int
  low : Int
  high : Int

/-- The place of a diagonal, when there are this many lines in the second text. -/
def slot (lines₂ : Nat) (d : Int) : Nat :=
  (d + lines₂ + 1).toNat

/-- How far a search got on a diagonal. -/
def Front.at (f : Front) (lines₂ : Nat) (d : Int) : Int :=
  (f.reach[slot lines₂ d]?).getD 0

/-- Notes how far a search got on a diagonal. -/
def Front.set (f : Front) (lines₂ : Nat) (d reach : Int) : Front :=
  { f with reach := f.reach.set! (slot lines₂ d) reach }

/-- Goes over to the diagonals of the next step; those beyond the box are left out. -/
def Front.widen (f : Front) (lines₂ : Nat) (least most beyond : Int) : Front :=
  let f :=
    if least < f.low then { f.set lines₂ (f.low - 2) beyond with low := f.low - 1 }
    else { f with low := f.low + 1 }
  if f.high < most then { f.set lines₂ (f.high + 2) beyond with high := f.high + 1 }
  else { f with high := f.high - 1 }

/-- The diagonals of a step, from the highest on. -/
def Front.diagonals (f : Front) : List Int :=
  (List.range ((f.high - f.low) / 2 + 1).toNat).map fun (i : Nat) => f.high - 2 * i

/-- How far lines are the same from two lines on. -/
def runForward (a b : Array α) (box : Box) : Nat → Int → Int → Int
  | 0, i, _ => i
  | fuel + 1, i, j =>
      if i < box.last₁ && j < box.last₂ then
        match a[i.toNat]?, b[j.toNat]? with
        | some x, some y => if x == y then runForward a b box fuel (i + 1) (j + 1) else i
        | _, _ => i
      else i

/-- How far lines are the same before two lines. -/
def runBackward (a b : Array α) (box : Box) : Nat → Int → Int → Int
  | 0, i, _ => i
  | fuel + 1, i, j =>
      if box.first₁ < i && box.first₂ < j then
        match a[(i - 1).toNat]?, b[(j - 1).toNat]? with
        | some x, some y => if x == y then runBackward a b box fuel (i - 1) (j - 1) else i
        | _, _ => i
      else i

/-- A step of the search from the start: where it meets the other, or how far it got. -/
def advance (a b : Array α) (box : Box) (meets : Bool) (other : Front) :
    List Int → Front → Except (Nat × Nat) Front
  | [], f => .ok f
  | d :: rest, f =>
      let below := f.at b.size (d - 1)
      let above := f.at b.size (d + 1)
      let start := if above ≤ below then below + 1 else above
      let i := runForward a b box (a.size + 1) start (start - d)
      if meets && other.low ≤ d && d ≤ other.high && other.at b.size d ≤ i then
        .error (i.toNat, (i - d).toNat)
      else advance a b box meets other rest (f.set b.size d i)

/-- A step of the search from the end: where it meets the other, or how far it got. -/
def retreat (a b : Array α) (box : Box) (meets : Bool) (other : Front) :
    List Int → Front → Except (Nat × Nat) Front
  | [], f => .ok f
  | d :: rest, f =>
      let below := f.at b.size (d - 1)
      let above := f.at b.size (d + 1)
      let start := if below < above then below else above - 1
      let i := runBackward a b box (a.size + 1) start (start - d)
      if meets && other.low ≤ d && d ≤ other.high && i ≤ other.at b.size d then
        .error (i.toNat, (i - d).toNat)
      else retreat a b box meets other rest (f.set b.size d i)

/-- Where searches from the start and from the end of a box meet. -/
def meeting (a b : Array α) (box : Box) : Nat → Front → Front → Nat × Nat
  | 0, _, _ => (box.last₁, box.first₂)
  | fuel + 1, f, g =>
      let least : Int := box.first₁ - box.last₂
      let most : Int := box.last₁ - box.first₂
      let isOdd := ((box.first₁ - box.first₂ : Int) - (box.last₁ - box.last₂)) % 2 != 0
      let f := f.widen b.size least most (-1)
      match advance a b box isOdd g f.diagonals f with
      | .error place => place
      | .ok f =>
          let g := g.widen b.size least most (a.size + b.size + 1)
          match retreat a b box (!isOdd) f g.diagonals g with
          | .error place => place
          | .ok g => meeting a b box fuel f g

/-- The first front of a search: one diagonal. -/
def Front.start (size₁ size₂ : Nat) (d reach : Int) : Front :=
  (⟨Array.replicate (size₁ + size₂ + 3) 0, d, d⟩ : Front).set size₂ d reach

/-- The box without the lines that both parts share at the start and at the end. -/
def shrink (a b : Array α) (box : Box) : Box :=
  let first := (runForward a b box a.size box.first₁ box.first₂).toNat - box.first₁
  let box := { box with first₁ := box.first₁ + first, first₂ := box.first₂ + first }
  let last := box.last₁ - (runBackward a b box a.size box.last₁ box.last₂).toNat
  { box with last₁ := box.last₁ - last, last₂ := box.last₂ - last }

/-- The lines of a box that go, and those that come. -/
def align (a b : Array α) : Nat → Box → List Nat × List Nat
  | 0, _ => ([], [])
  | fuel + 1, box =>
      let box := shrink a b box
      if box.last₁ ≤ box.first₁ then
        ([], List.range' box.first₂ (box.last₂ - box.first₂))
      else if box.last₂ ≤ box.first₂ then
        (List.range' box.first₁ (box.last₁ - box.first₁), [])
      else
        let (i, j) := meeting a b box (a.size + b.size + 1)
          (Front.start a.size b.size (box.first₁ - box.first₂) box.first₁)
          (Front.start a.size b.size (box.last₁ - box.last₂) box.last₁)
        let (gone₁, come₁) := align a b fuel { box with last₁ := i, last₂ := j }
        let (gone₂, come₂) := align a b fuel { box with first₁ := i, first₂ := j }
        (gone₁ ++ gone₂, come₁ ++ come₂)

/-- Which lines go and which come, as the search finds them. -/
def found (a b : List α) : Marks × Marks :=
  let start := sharedStart a b
  let a' := a.drop start
  let b' := b.drop start
  let finish := sharedStart a'.reverse b'.reverse
  let size₁ := a'.length - finish
  let size₂ := b'.length - finish
  let keep₁ := compared start [] (((partners a b).drop start).take size₁)
  let keep₂ := compared start [] (((partners b a).drop start).take size₂)
  let lines (xs : List α) (keep : List Nat) : Array α :=
    (keep.filterMap fun i => xs[i]?).toArray
  let (gone, come) := align (lines a keep₁) (lines b keep₂) (keep₁.length + keep₂.length + 1)
    ⟨0, keep₁.length, 0, keep₂.length⟩
  let marks (xs : List α) (size : Nat) (keep changed : List Nat) : Marks :=
    markAll (Array.replicate xs.length false)
      ((List.range' start size).filter (fun i => !keep.contains i) ++
        changed.filterMap fun k => keep[k]?)
  (marks a size₁ keep₁ gone, marks b size₂ keep₂ come)

/-! ### Sliding runs -/

/-- A run of marked lines, or the place of none. -/
structure Run where
  first : Nat
  last : Nat

/-- No line is in the run. -/
def Run.isEmpty (r : Run) : Bool :=
  r.first == r.last

/-- The first run. -/
def Run.start (m : Marks) : Run :=
  ⟨0, endFrom m 0⟩

/-- The run after the next line that stays. -/
def Run.next? (m : Marks) (r : Run) : Option Run :=
  if r.last = m.size then none else some ⟨r.last + 1, endFrom m (r.last + 1)⟩

/-- The run before the line that stays above. -/
def Run.previous? (m : Marks) (r : Run) : Option Run :=
  if r.first = 0 then none else some ⟨startBefore m (r.first - 1), r.first - 1⟩

/-- The marks of a text, and a run of them. -/
structure Slide where
  marks : Marks
  run : Run

/-- Two lines of a text are the same. -/
def same (lines : Array α) (i j : Nat) : Bool :=
  match lines[i]?, lines[j]? with
  | some x, some y => x == y
  | _, _ => false

/-- The run one line lower, with the marked lines that it meets there. -/
def Slide.down? (lines : Array α) (s : Slide) : Option Slide :=
  if s.run.last < lines.size && same lines s.run.first s.run.last then
    let marks := (s.marks.set! s.run.first false).set! s.run.last true
    some ⟨marks, ⟨s.run.first + 1, endFrom marks (s.run.last + 1)⟩⟩
  else none

/-- The run one line higher, with the marked lines that it meets there. -/
def Slide.up? (lines : Array α) (s : Slide) : Option Slide :=
  if s.run.first != 0 && same lines (s.run.first - 1) (s.run.last - 1) then
    let marks := (s.marks.set! (s.run.first - 1) true).set! (s.run.last - 1) false
    some ⟨marks, ⟨startBefore marks (s.run.first - 1), s.run.last - 1⟩⟩
  else none

/-- The run as high as it goes, and the run of the other text that lies beside it. -/
def highest (lines : Array α) (other : Marks) : Nat → Slide → Run → Slide × Run
  | 0, s, beside => (s, beside)
  | fuel + 1, s, beside =>
      match s.up? lines with
      | some s => highest lines other fuel s ((beside.previous? other).getD beside)
      | none => (s, beside)

/-- The run as low as it goes, the run of the other text that lies beside it, and
whether one lay beside it on the way. -/
def lowest (lines : Array α) (other : Marks) : Nat → Slide → Run → Bool → Slide × Run × Bool
  | 0, s, beside, met => (s, beside, met)
  | fuel + 1, s, beside, met =>
      match s.down? lines with
      | some s =>
          let beside := (beside.next? other).getD beside
          lowest lines other fuel s beside (met || !beside.isEmpty)
      | none => (s, beside, met)

/-- The run moved up until one of the other text lies beside it. -/
def besideOther (lines : Array α) (other : Marks) : Nat → Slide → Run → Slide × Run
  | 0, s, beside => (s, beside)
  | fuel + 1, s, beside =>
      if !beside.isEmpty then (s, beside)
      else match s.up? lines with
        | some s => besideOther lines other fuel s ((beside.previous? other).getD beside)
        | none => (s, beside)

/-- The run where it is wanted: it takes in what it meets as high and as low as it goes,
and then lies beside a run of the other text if it can, and else as low as possible. -/
def place (lines : Array α) (other : Marks) : Nat → Slide → Run → Slide × Run
  | 0, s, beside => (s, beside)
  | fuel + 1, s, beside =>
      let size := s.run.last - s.run.first
      let (high, beside) := highest lines other lines.size s beside
      let top := high.run.last
      let (low, beside, met) := lowest lines other lines.size high beside (!beside.isEmpty)
      if low.run.last - low.run.first != size then place lines other fuel low beside
      else if low.run.last != top && met then besideOther lines other lines.size low beside
      else (low, beside)

/-- Puts every run where it is wanted, from one run on. -/
def placeFrom (lines : Array α) (other : Marks) : Nat → Slide → Run → Marks
  | 0, s, _ => s.marks
  | fuel + 1, s, beside =>
      let (s, beside) :=
        if s.run.isEmpty then (s, beside) else place lines other (lines.size + 1) s beside
      match s.run.next? s.marks with
      | none => s.marks
      | some run =>
          placeFrom lines other fuel { s with run } ((beside.next? other).getD beside)

/-- Puts every run of marked lines where it is wanted. -/
def placed (lines : Array α) (m other : Marks) : Marks :=
  placeFrom lines other (lines.size + 1) ⟨m, Run.start m⟩ (Run.start other)

/-! ### Changes -/

/-- Which lines go, and which come. -/
def marks (a b : List α) : Marks × Marks :=
  let (gone, come) := found a b
  let gone := placed a.toArray gone come
  (gone, placed b.toArray come gone)

/-- A change: lines that go at one place, and lines that come at another. -/
structure Change where
  first₁ : Nat
  count₁ : Nat
  first₂ : Nat
  count₂ : Nat
  deriving DecidableEq, Repr

/-- The changes from two lines on. -/
def changesFrom (gone come : Marks) : Nat → Nat → Nat → List Change
  | 0, _, _ => []
  | fuel + 1, i, j =>
      let i' := endFrom gone i
      let j' := endFrom come j
      let rest := changesFrom gone come fuel (i' + 1) (j' + 1)
      if gone.size < i || come.size < j then []
      else if i' = i && j' = j then rest
      else ⟨i, i' - i, j, j' - j⟩ :: rest

/-- What has to be changed in one list of lines to get another. -/
def changes (a b : List α) : List Change :=
  let (gone, come) := marks a b
  changesFrom gone come (a.length + b.length + 2) 0 0

end Workbench.Text.Difference
