import Transducer.Binary32
/-!
# Weights

Costs on the arcs and final states of a machine: single-precision numbers under one of two
algebras. Both share `zero` (infinity, the neutral element of `plus` that absorbs `times`), `one`
(the number zero) and the multiplication, which adds costs; they differ in `plus`. Main
statements: that equality as numbers is symmetric and transitive, and which patterns are members,
all through the integer key of a pattern.
-/
namespace Transducer

/-- A weight: any single-precision pattern, members of the algebras or not. -/
structure Weight where
  value : Binary32
  deriving DecidableEq, Repr, Inhabited

namespace Weight

/-- The weight of no path at all. -/
def zero : Weight := ⟨Binary32.infinity⟩

/-- The weight of the empty path. -/
def one : Weight := ⟨Binary32.zero⟩

/-- What an operation on something that is no member gives. -/
def bad : Weight := ⟨Binary32.nan⟩

/-- The default tolerance, `1 / 1024`. -/
def tolerance : Binary32 := ⟨0x3a800000⟩

/-- Equality as numbers: both zeros are equal, and no number at all equals nothing. -/
def same (a b : Weight) : Bool := a.value.equals b.value

def isZero (a : Weight) : Bool := a.same zero

def isOne (a : Weight) : Bool := a.same one

/-- Whether the weight belongs to the algebras: a number other than minus infinity. -/
def isMember (a : Weight) : Bool := !a.value.isNaN && !a.value.equals Binary32.negInfinity

/-- Equality up to a tolerance, the bounds being computed in single precision. -/
def near (a b : Weight) (delta : Binary32) : Bool :=
  a.same b || (a.value.atMost (b.value.add delta) && b.value.atMost (a.value.add delta))

/-- The nearest multiple of `delta`, in single precision; infinities and non-numbers stay. -/
def quantize (a : Weight) (delta : Binary32) : Weight :=
  if a.value.isInfinite || a.value.isNaN then a
  else ⟨(((a.value.div delta).add Binary32.half).floor).mul delta⟩

/-- The product of two weights: the sum of the costs. -/
def times (a b : Weight) : Weight :=
  if !a.isMember || !b.isMember then bad
  else if a.value.equals Binary32.infinity || b.value.equals Binary32.infinity then zero
  else ⟨a.value.add b.value⟩

/-- The smaller of two weights, the second one when neither is smaller. -/
def least (a b : Weight) : Weight :=
  if !a.isMember || !b.isMember then bad
  else if a.value.less b.value then a else b

/-- The natural logarithm of `1 + x`, accurate for small `x`. -/
def logOnePlus (x : Float) : Float :=
  let sum := 1 + x
  if sum == 1 then x else Float.log sum * (x / (sum - 1))

/-- The cost of having two choices, `-log (exp (-a) + exp (-b))`, computed from the smaller cost. -/
def logSum (a b : Weight) : Weight :=
  if !a.isMember || !b.isMember then bad
  else if a.value.equals Binary32.infinity then b
  else if b.value.equals Binary32.infinity then a
  else
    let (low, high) := if a.value.less b.value then (a.value, b.value) else (b.value, a.value)
    let real (x : Binary32) : Float := (Float32.ofBits x.bits).toFloat
    let sum := real low - logOnePlus (Float.exp (-(real high - real low)))
    ⟨⟨sum.toFloat32.toBits⟩⟩

theorem same_comm (a b : Weight) : a.same b = b.same a := by
  rw [Bool.eq_iff_iff, same, same, Binary32.equals_iff, Binary32.equals_iff]
  constructor <;> rintro ⟨ha, hb, hk⟩ <;> exact ⟨hb, ha, hk.symm⟩

theorem same_trans {a b c : Weight} (hab : a.same b = true) (hbc : b.same c = true) :
    a.same c = true := by
  simp only [same, Binary32.equals_iff] at *
  exact ⟨hab.1, hbc.2.1, hab.2.2.trans hbc.2.2⟩

/-- Minus infinity is the only number with its key. -/
theorem isMember_iff {a : Weight} :
    a.isMember = true ↔ a.value.isNaN = false ∧ a.value.key ≠ Binary32.negInfinity.key := by
  have number : Binary32.negInfinity.isNaN = false := by decide
  rw [isMember, Bool.and_eq_true, Bool.not_eq_true', Bool.not_eq_true', Binary32.equals, number]
  cases a.value.isNaN <;> simp

theorem not_isNaN_of_isMember {a : Weight} (member : a.isMember = true) : a.value.isNaN = false :=
  (isMember_iff.1 member).1

end Weight

/-- The two algebras of costs. -/
inductive Algebra where
  | tropical
  | log
  deriving DecidableEq, Repr

namespace Algebra

def plus : Algebra → Weight → Weight → Weight
  | tropical => Weight.least
  | log => Weight.logSum

def times (_ : Algebra) : Weight → Weight → Weight := Weight.times

/-- Laws an algebra obeys. -/
inductive Law where
  | distributesLeft
  | distributesRight
  | commutative
  | idempotent
  | path
  deriving DecidableEq, Repr

/-- The bit that stands for a law in a word of laws. -/
def Law.bit : Law → Nat
  | distributesLeft => 0x01
  | distributesRight => 0x02
  | commutative => 0x04
  | idempotent => 0x08
  | path => 0x10

def laws : Algebra → List Law
  | tropical => [.distributesLeft, .distributesRight, .commutative, .idempotent, .path]
  | log => [.distributesLeft, .distributesRight, .commutative]

/-- The word of laws of an algebra. -/
def lawWord (algebra : Algebra) : Nat := (algebra.laws.map Law.bit).foldr (· ||| ·) 0

def weightName : Algebra → String
  | tropical => "tropical"
  | log => "log"

/-- The name of arcs with such weights, kept in file headers. -/
def arcName : Algebra → String
  | tropical => "standard"
  | log => "log"

end Algebra
end Transducer
