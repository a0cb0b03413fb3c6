import Transducer.Rounding
/-!
# Binary32 numbers

Single-precision numbers as their bit patterns. A pattern is read as a sign, a magnitude and,
when finite, an exact multiple of the smallest step `2 ^ (-149)`; comparisons use an integer key
and arithmetic is exact on multiples, rounded once at the end. Main statements: the comparisons
are those of the integer key, away from the patterns that are no number.
-/
namespace Transducer

/-- A single-precision number, given by its 32-bit pattern. -/
structure Binary32 where
  bits : UInt32
  deriving DecidableEq, Repr, Inhabited

namespace Binary32

def zero : Binary32 := ⟨0⟩
def negZero : Binary32 := ⟨0x80000000⟩
def half : Binary32 := ⟨0x3f000000⟩
def infinity : Binary32 := ⟨0x7f800000⟩
def negInfinity : Binary32 := ⟨0xff800000⟩
def nan : Binary32 := ⟨0x7fc00000⟩

/-- The pattern without its sign, ordered as the numbers are. -/
def magnitude (x : Binary32) : Nat := x.bits.toNat % 0x80000000

def isNegative (x : Binary32) : Bool := 0x80000000 ≤ x.bits.toNat

def infiniteMagnitude : Nat := 0x7f800000

/-- No number at all; every comparison with such a pattern is false. -/
def isNaN (x : Binary32) : Bool := infiniteMagnitude < x.magnitude

def isInfinite (x : Binary32) : Bool := x.magnitude == infiniteMagnitude

/-- The place of a number in the order; both zeros have key zero. -/
def key (x : Binary32) : Int := if x.isNegative then -x.magnitude else x.magnitude

/-- Equality of numbers: no number at all equals nothing, and the two zeros are equal. -/
def equals (x y : Binary32) : Bool := !x.isNaN && !y.isNaN && x.key == y.key

def less (x y : Binary32) : Bool := !x.isNaN && !y.isNaN && x.key < y.key

def atMost (x y : Binary32) : Bool := !x.isNaN && !y.isNaN && x.key ≤ y.key

/-- How many steps of `2 ^ (-149)` a finite number is away from zero. -/
def steps (x : Binary32) : Nat :=
  let exponent := x.magnitude / 0x800000
  let fraction := x.magnitude % 0x800000
  if exponent = 0 then fraction else (0x800000 + fraction) * 2 ^ (exponent - 1)

/-- The number as a signed count of steps. -/
def signedSteps (x : Binary32) : Int := if x.isNegative then -x.steps else x.steps

/-- The number of steps in one unit. -/
def unit : Nat := 2 ^ (149 : Nat)

/-- Puts a sign on a magnitude. -/
def withSign (negative : Bool) (magnitude : Nat) : Binary32 :=
  ⟨UInt32.ofNat (if negative then 0x80000000 + magnitude else magnitude)⟩

/-- The number nearest to `n / d` steps, ties to the even pattern, beyond the largest infinity. -/
def ofSteps (negative : Bool) (n d : Nat) : Binary32 :=
  let shift := (n / d).log2 - 23
  let magnitude := shift * 0x800000 + roundEven n (d * 2 ^ shift)
  withSign negative (min magnitude infiniteMagnitude)

/-- The number nearest to the quotient `n / d`. -/
def ofRatio (negative : Bool) (n d : Nat) : Binary32 := ofSteps negative (n * unit) d

def add (x y : Binary32) : Binary32 :=
  if x.isNaN || y.isNaN then nan
  else if x.isInfinite then
    if y.isInfinite && x.isNegative != y.isNegative then nan else x
  else if y.isInfinite then y
  else
    let sum := x.signedSteps + y.signedSteps
    if sum = 0 then withSign (x.isNegative && y.isNegative) 0
    else ofSteps (sum < 0) sum.natAbs 1

def mul (x y : Binary32) : Binary32 :=
  let negative := x.isNegative != y.isNegative
  if x.isNaN || y.isNaN then nan
  else if x.isInfinite || y.isInfinite then
    if x.magnitude = 0 || y.magnitude = 0 then nan else withSign negative infiniteMagnitude
  else ofSteps negative (x.steps * y.steps) unit

def div (x y : Binary32) : Binary32 :=
  let negative := x.isNegative != y.isNegative
  if x.isNaN || y.isNaN then nan
  else if x.isInfinite then if y.isInfinite then nan else withSign negative infiniteMagnitude
  else if y.isInfinite then withSign negative 0
  else if y.magnitude = 0 then
    if x.magnitude = 0 then nan else withSign negative infiniteMagnitude
  else ofRatio negative x.steps y.steps

/-- The largest whole number not above `x`; a zero keeps its sign. -/
def floor (x : Binary32) : Binary32 :=
  if x.isNaN || x.isInfinite || x.magnitude = 0 then x
  else if x.isNegative then ofRatio true ((x.steps + unit - 1) / unit) 1
  else ofRatio false (x.steps / unit) 1

theorem equals_iff {x y : Binary32} :
    x.equals y = true ↔ x.isNaN = false ∧ y.isNaN = false ∧ x.key = y.key := by
  simp [equals, and_assoc]

theorem less_iff {x y : Binary32} :
    x.less y = true ↔ x.isNaN = false ∧ y.isNaN = false ∧ x.key < y.key := by
  simp [less, and_assoc]

theorem atMost_iff {x y : Binary32} :
    x.atMost y = true ↔ x.isNaN = false ∧ y.isNaN = false ∧ x.key ≤ y.key := by
  simp [atMost, and_assoc]

end Binary32
end Transducer
