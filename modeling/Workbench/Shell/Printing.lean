/-
# Printing

What `echo` and `printf` write.
-/

import Workbench.Shell.Utility
import Workbench.Shell.Word

namespace Workbench.Shell

/-- Writes arguments. -/
def echo : Utility := fun g =>
  let isFlag (a : String) : Bool :=
    match a.toList with
    | '-' :: c :: cs => (c :: cs).all fun c => c == 'n' || c == 'e' || c == 'E'
    | _ => false
  let flags := g.arguments.takeWhile isFlag
  let letters := (flags.map String.toList).flatten
  let text := " ".intercalate (g.arguments.drop flags.length)
  let isRead := (letters.filter (· != 'n')).getLast? = some 'e'
  let s := text.toList
  let (shown, isCut) := if isRead then cutAtEnd s else (s, false)
  let written := if isRead then String.ofList (controls (shown.length + 1) (withZeros shown)) else text
  g.tells (written ++ if letters.contains 'n' || isCut then "" else "\n")
where
  /-- A text up to a backslash and a `c`, and whether it has them. -/
  cutAtEnd : List Char → List Char × Bool
    | '\\' :: 'c' :: _ => ([], true)
    | '\\' :: c :: rest =>
        let (s, isCut) := cutAtEnd rest
        ('\\' :: c :: s, isCut)
    | c :: rest =>
        let (s, isCut) := cutAtEnd rest
        (c :: s, isCut)
    | [] => ([], false)
  /-- Octal digits behind a zero, as they stand without it; without one they are text. -/
  withZeros : List Char → List Char
    | '\\' :: '0' :: a :: rest =>
        if isOctal a then '\\' :: a :: withZeros rest else '\\' :: '0' :: a :: withZeros rest
    | '\\' :: '\\' :: rest => '\\' :: '\\' :: withZeros rest
    | '\\' :: a :: rest =>
        if isOctal a && a != '0' then '\\' :: '\\' :: a :: withZeros rest else '\\' :: a :: withZeros rest
    | c :: rest => c :: withZeros rest
    | [] => []

/-- A text with others in front or behind, up to a width. -/
def fitted (flags : List Char) (width : Nat) (text : String) : String :=
  let fill := List.replicate (width - text.length)
  if flags.contains '-' then text ++ String.ofList (fill ' ')
  else if flags.contains '0' then
    match text.toList with
    | '-' :: rest => "-" ++ String.ofList (fill '0' ++ rest)
    | s => String.ofList (fill '0' ++ s)
  else String.ofList (fill ' ') ++ text

/-- The number that an argument is, if it is one. -/
def argumentNumber (text : String) : Option Int :=
  match text.toList with
  | [] => some 0
  | ['\'', c] => some c.toNat
  | ['"', c] => some c.toNat
  | '+' :: rest => (String.ofList rest).toNat?.map fun n => (n : Int)
  | '0' :: 'x' :: rest =>
      if rest.all isHex then some (rest.foldl (fun n c => 16 * n + (ofDigits 16 [c]).toNat) 0 : Nat)
      else none
  | '0' :: rest =>
      if rest.all isOctal then some (rest.foldl (fun n c => 8 * n + (c.toNat - '0'.toNat)) 0 : Nat)
      else none
  | _ => text.toInt?

/-- The whole number nearest to a quotient; a half goes to an even one. -/
def nearest (n d : Nat) : Nat :=
  let q := n / d
  let r := n % d
  if d < 2 * r || (2 * r = d && q % 2 = 1) then q + 1 else q

/-- The quotient nearest to another one of which the numerator has 64 bits. -/
def inBits (n d : Nat) : Nat × Nat :=
  if n = 0 then (0, 1)
  else
    let e : Int := 63 - ((n.log2 : Int) - d.log2)
    let scaled (e : Int) : Nat :=
      if 0 ≤ e then nearest (n * Nat.pow 2 e.toNat) d else nearest n (d * Nat.pow 2 (-e).toNat)
    let e := if scaled e < Nat.pow 2 63 then e + 1 else e
    if 0 ≤ e then (scaled e, Nat.pow 2 e.toNat) else (scaled e * Nat.pow 2 (-e).toNat, 1)

/-- Decimal places of a number that is written with a point, rounded. -/
def placesOf (places : Nat) (text : String) : String :=
  let (isNegative, s) := match text.toList with
    | '-' :: rest => (true, rest)
    | s => (false, s)
  let whole := s.takeWhile Char.isDigit
  let fraction := ((s.drop (whole.length + 1)).takeWhile Char.isDigit)
  let digits (ds : List Char) : Nat := ds.foldl (fun n c => 10 * n + (c.toNat - '0'.toNat)) 0
  let scale := fraction.length
  let (n, scale) := inBits (digits (whole ++ fraction)) (Nat.pow 10 scale)
  let q := nearest (n * Nat.pow 10 places) scale
  let low := toString (q % Nat.pow 10 places)
  (if isNegative then "-" else "") ++ toString (q / Nat.pow 10 places) ++
    if places = 0 then "" else "." ++ String.ofList (List.replicate (places - low.length) '0') ++ low

/-- What a pass through a format writes: texts, complaints, and the arguments left;
nothing more is written when an argument says so. -/
structure Printed where
  text : List Char := []
  complaints : List String := []
  rest : List String
  used : Nat := 0

/-- A text as a word that stands for it. -/
def escaped (text : String) : String :=
  let isSafe (c : Char) : Bool := c.isAlphanum || "_-./:=,+@%^".toList.contains c
  if text = "" then "''"
  else String.ofList (text.toList.flatMap fun c => if isSafe c then [c] else ['\\', c])

/-- Writes arguments in a format. -/
def printFormat : Nat → List Char → Printed → Printed
  | 0, _, d => d
  | _, [], d => d
  | fuel + 1, '%' :: '%' :: s, d => printFormat fuel s { d with text := d.text ++ ['%'] }
  | fuel + 1, '%' :: s, d =>
      let flags := s.takeWhile fun c => ['-', '+', ' ', '0', '#'].contains c
      let s := s.drop flags.length
      let take (s : List Char) (d : Printed) : Option Nat × List Char × Printed :=
        match s with
        | '*' :: s => ((d.rest.head?.bind String.toNat?), s, { d with rest := d.rest.drop 1 })
        | s =>
            let digits := s.takeWhile Char.isDigit
            ((String.ofList digits).toNat?, s.drop digits.length, d)
      let (width, s, d) := take s d
      let (precision, s, d) := match s with
        | '.' :: s =>
            let (p, s, d) := take s d
            (some (p.getD 0), s, d)
        | s => (none, s, d)
      let argument := d.rest.headD ""
      let next := { d with rest := d.rest.drop 1, used := d.used + 1 }
      let put (text : String) (s : List Char) : Printed :=
        printFormat fuel s { next with text := d.text ++ (fitted flags (width.getD 0) text).toList }
      let number (show_ : Int → String) (s : List Char) : Printed :=
        match argumentNumber argument with
        | some n => put (show_ n) s
        | none =>
            let told := { next with
              complaints := d.complaints ++ ["printf: " ++ argument ++ ": invalid number"] }
            let valid := argument.toList.takeWhile Char.isDigit
            let n : Int := ((String.ofList valid).toNat?.getD 0 : Nat)
            printFormat fuel s { told with text := d.text ++ (fitted flags (width.getD 0) (show_ n)).toList }
      let positive (n : Int) : Nat := (n % Nat.pow 2 64).toNat
      let signed (n : Int) : String :=
        if flags.contains '+' && 0 ≤ n then "+" ++ toString n else toString n
      match s with
      | 's' :: s => put ((precision.map fun p => String.ofList (argument.toList.take p)).getD argument) s
      | 'b' :: s => put (String.ofList (controls (argument.length + 1) argument.toList)) s
      | 'q' :: s => put (escaped argument) s
      | 'c' :: s => put (String.ofList (argument.toList.take 1)) s
      | 'd' :: s => number signed s
      | 'i' :: s => number signed s
      | 'u' :: s => number (fun n => toString (positive n)) s
      | 'o' :: s => number (fun n => String.ofList (Nat.toDigits 8 (positive n))) s
      | 'x' :: s => number (fun n => String.ofList (Nat.toDigits 16 (positive n))) s
      | 'X' :: s => number (fun n => String.ofList ((Nat.toDigits 16 (positive n)).map Char.toUpper)) s
      | 'f' :: s => put (placesOf (precision.getD 6) argument) s
      | c :: _ =>
          { d with complaints := d.complaints ++
              ["printf: \x60" ++ String.singleton c ++ "': invalid format character"], rest := [] }
      | [] => { d with complaints := d.complaints ++ ["printf: \x60%': missing format character"], rest := [] }
  | fuel + 1, c :: s, d => printFormat fuel s { d with text := d.text ++ [c] }

/-- Writes arguments in a format, again and again until none is left. -/
def printAll : Nat → List Char → Printed → Printed
  | 0, _, d => d
  | fuel + 1, format, d =>
      let d := printFormat (format.length + 1) format { d with used := 0 }
      if d.rest = [] || d.used = 0 then d else printAll fuel format d

end Workbench.Shell
