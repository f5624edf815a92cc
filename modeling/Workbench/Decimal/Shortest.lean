/-
# Shortest decimals

The decimal that stands for a double-precision number is the shortest one that
rounds to it, and of several the nearest. Its digits are found exactly: the
number is m · 2^q, the reals that round to it form an interval around it (with
its ends when m is even), and for one digit after another the two neighbours of
the number on that decimal grid are tried.

* `Shortest.ofBits` — digits and exponent of a finite number other than zero.
* `Layout` — how such digits are written; `Layout.render` writes a number.
-/

namespace Workbench.Decimal

/-- The digits `d₁d₂…` of a number and the exponent of its leading digit: the
number is d₁.d₂… · 10^exponent. -/
structure Scientific where
  digits : List Char
  exponent : Int
  deriving Repr, DecidableEq

/-- The parts of a double: sign, significand, and the power of two it counts. -/
structure Parts where
  negative : Bool
  significand : Nat
  power : Int
  deriving Repr, DecidableEq

namespace Parts

/-- Takes the bits of a finite double apart. -/
def ofBits (bits : UInt64) : Parts :=
  let n : Nat := bits.toNat
  let fraction : Nat := n % Nat.pow 2 52
  let biased : Nat := n / Nat.pow 2 52 % 2048
  if biased = 0 then ⟨decide (Nat.pow 2 63 ≤ n), fraction, -1074⟩
  else ⟨decide (Nat.pow 2 63 ≤ n), fraction + Nat.pow 2 52, (biased : Int) - 1075⟩

end Parts

namespace Shortest

/-- A ratio of naturals. -/
structure Ratio where
  num : Nat
  den : Nat

/-- The number m · 2^q as a ratio. -/
def ratio (m : Nat) (q : Int) : Ratio :=
  if 0 ≤ q then ⟨m * Nat.pow 2 q.toNat, 1⟩ else ⟨m, Nat.pow 2 (-q).toNat⟩

/-- The ratio divided by a power of ten. -/
def Ratio.scale (r : Ratio) (e : Int) : Ratio :=
  if 0 ≤ e then ⟨r.num, r.den * Nat.pow 10 e.toNat⟩ else ⟨r.num * Nat.pow 10 (-e).toNat, r.den⟩

/-- The order of two ratios. -/
def Ratio.compare (a b : Ratio) : Ordering :=
  Ord.compare (a.num * b.den) (b.num * a.den)

/-- The largest e with 10^e at most the ratio, searched upwards from `e`. -/
def leading (r : Ratio) : Nat → Int → Int
  | 0, e => e
  | fuel + 1, e =>
      if (Ratio.scale r (e + 1)).compare ⟨1, 1⟩ = .lt then e else leading r fuel (e + 1)

/-- The interval of reals that round to a number. -/
structure Interval where
  low : Ratio
  high : Ratio
  closed : Bool

/-- The interval around m · 2^q. Below a power of two the grid is twice as fine. -/
def Interval.around (m : Nat) (q : Int) : Interval :=
  let even := m % 2 == 0
  if m = Nat.pow 2 52 ∧ -1074 < q then
    ⟨ratio (4 * m - 1) (q - 2), ratio (4 * m + 2) (q - 2), even⟩
  else ⟨ratio (2 * m - 1) (q - 1), ratio (2 * m + 1) (q - 1), even⟩

/-- Whether the decimal n · 10^e rounds to the number. -/
def Interval.holds (i : Interval) (n : Nat) (e : Int) : Bool :=
  let d : Ratio := Ratio.scale ⟨n, 1⟩ (-e)
  match i.low.compare d, d.compare i.high with
  | .lt, .lt => true
  | .eq, .lt => i.closed
  | .lt, .eq => i.closed
  | _, _ => false

/-- The neighbour of the number on the grid of 10^e that rounds to it, the nearer
one if both do; the upper one on a tie. -/
def neighbour? (v : Ratio) (i : Interval) (e : Int) : Option Nat :=
  let r := v.scale e
  let low := r.num / r.den
  let below := i.holds low e
  let above := i.holds (low + 1) e
  if below && above then
    if 2 * (r.num % r.den) < r.den then some low else some (low + 1)
  else if below then some low
  else if above then some (low + 1)
  else none

/-- Tries grids from coarse to fine. -/
def search (v : Ratio) (i : Interval) (lead : Int) : Nat → Nat → Nat × Int
  | 0, count => let e := lead - count + 1
                let r := v.scale e
                (r.num / r.den, e)
  | fuel + 1, count =>
      let e := lead - count + 1
      match neighbour? v i e with
      | some n => (n, e)
      | none => search v i lead fuel (count + 1)

/-- Drops zeros at the end of a list of digits. -/
def stripZeros (digits : List Char) : List Char :=
  (digits.reverse.dropWhile (· == '0')).reverse

/-- The shortest decimal of a significand other than zero and its power of two. -/
def ofParts (m : Nat) (q : Int) : Scientific :=
  let v := ratio m q
  let lead := leading v 700 (-330)
  let (n, e) := search v (Interval.around m q) lead 17 1
  let digits := (toString n).toList
  ⟨stripZeros digits, e + digits.length - 1⟩

end Shortest

/-- How the digits of a number are laid out. -/
structure Layout where
  /-- Exponents of the leading digit from this one on are written positionally … -/
  plainFrom : Int
  /-- … up to before this one. -/
  plainBelow : Int
  /-- A whole number ends in a point and a zero. -/
  pointZero : Bool
  /-- A plus sign stands before an exponent that is not negative. -/
  exponentPlus : Bool

namespace Layout

/-- The positional form of digits. -/
def positional (layout : Layout) (s : Scientific) : List Char :=
  if s.exponent < 0 then
    '0' :: '.' :: List.replicate ((-s.exponent).toNat - 1) '0' ++ s.digits
  else
    let whole := s.exponent.toNat + 1
    if s.digits.length ≤ whole then
      s.digits ++ List.replicate (whole - s.digits.length) '0' ++
        (if layout.pointZero then ['.', '0'] else [])
    else s.digits.take whole ++ '.' :: s.digits.drop whole

/-- The form with an exponent. -/
def exponential (layout : Layout) (s : Scientific) : List Char :=
  let mantissa := match s.digits with
    | [] => ['0']
    | [d] => [d]
    | d :: more => d :: '.' :: more
  let sign := if s.exponent < 0 then ['-'] else if layout.exponentPlus then ['+'] else []
  mantissa ++ 'e' :: sign ++ (toString s.exponent.natAbs).toList

/-- Writes a finite number. -/
def render (layout : Layout) (x : Float) : String :=
  let parts := Parts.ofBits x.toBits
  let body :=
    if parts.significand = 0 then layout.positional ⟨['0'], 0⟩
    else
      let s := Shortest.ofParts parts.significand parts.power
      if layout.plainFrom ≤ s.exponent ∧ s.exponent < layout.plainBelow then layout.positional s
      else layout.exponential s
  String.ofList (if parts.negative then '-' :: body else body)

end Layout

end Workbench.Decimal
