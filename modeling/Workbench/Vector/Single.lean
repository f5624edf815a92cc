/-
# Single-precision numbers

A component of an embedding is a 32-bit floating-point number, kept as its bit
pattern: two numbers are the same when their bits are, a NaN included. Order is
read off the bits (`Single.key`): numbers compare by sign and magnitude, both
zeros are equal, and a NaN compares with nothing. Arithmetic rounds to nearest.
-/

import Workbench.Text.Octets

namespace Workbench.Vector

open Workbench.Text

/-- A single-precision number, by its bits. -/
structure Single where
  bits : UInt32
  deriving DecidableEq, Repr

namespace Single

/-- The number with the value of a machine float. -/
def ofFloat (x : Float32) : Single := ⟨x.toBits⟩

/-- The machine float with these bits. -/
def toFloat (x : Single) : Float32 := Float32.ofBits x.bits

/-- Rounds a double to the nearest single; too large a magnitude gives an infinity. -/
def round (x : Float) : Single := ofFloat x.toFloat32

/-- Positive zero. -/
def zero : Single := ⟨0⟩

/-- Negative zero, from which a sum starts: it is the neutral element of addition. -/
def negativeZero : Single := ⟨0x80000000⟩

/-- One. -/
def one : Single := ⟨0x3F800000⟩

/-- The bits below the sign. -/
def magnitude (x : Single) : Nat := x.bits.toNat % 0x80000000

/-- The sign bit is set. -/
def isNegative (x : Single) : Bool := 0x80000000 ≤ x.bits.toNat

/-- Not a number. -/
def isNaN (x : Single) : Bool := 0x7F800000 < x.magnitude

/-- A number whose order is the order of the numbers. -/
def key (x : Single) : Int :=
  if x.isNegative then - (x.magnitude : Int) else x.magnitude

/-- The order of two numbers; a NaN has none. -/
def compare? (x y : Single) : Option Ordering :=
  if x.isNaN || y.isNaN then none else some (compare x.key y.key)

def add (x y : Single) : Single := ofFloat (x.toFloat + y.toFloat)

def mul (x y : Single) : Single := ofFloat (x.toFloat * y.toFloat)

def div (x y : Single) : Single := ofFloat (x.toFloat / y.toFloat)

def sqrt (x : Single) : Single := ofFloat x.toFloat.sqrt

/-- The value is zero, of either sign. -/
def isZero (x : Single) : Bool := x.magnitude == 0

/-- The sum of numbers from left to right. -/
def sum (xs : List Single) : Single :=
  xs.foldl add negativeZero

/-- The four bytes of a number, least significant first. -/
def toOctets (x : Single) : Octets :=
  [x.bits.toUInt8, (x.bits >>> 8).toUInt8, (x.bits >>> 16).toUInt8, (x.bits >>> 24).toUInt8]

/-- The number of which these are the four bytes, least significant first. -/
def ofOctets (b0 b1 b2 b3 : UInt8) : Single :=
  ⟨b0.toUInt32 ||| (b1.toUInt32 <<< 8) ||| (b2.toUInt32 <<< 16) ||| (b3.toUInt32 <<< 24)⟩

end Single

end Workbench.Vector
