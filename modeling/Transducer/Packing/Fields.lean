/-!
# Selections of arc fields

Which fields of an arc a caller wants decoded. Selections form the algebra of four truth values;
a selection is written as the sum of the bits 1, 2, 4 and 8. Main statements: a selection comes
back from its bits, and the complement undoes itself.
-/
namespace Transducer

structure Fields where
  ilabel : Bool
  olabel : Bool
  weight : Bool
  nextstate : Bool
  deriving DecidableEq, Repr

namespace Fields

def none : Fields := ⟨false, false, false, false⟩

/-- Every field of an arc. -/
def all : Fields := ⟨true, true, true, true⟩

def onlyInput : Fields := { none with ilabel := true }

def onlyOutput : Fields := { none with olabel := true }

def inputAndWeight : Fields := { none with ilabel := true, weight := true }

def inputAndTarget : Fields := { none with ilabel := true, nextstate := true }

def union (a b : Fields) : Fields :=
  ⟨a.ilabel || b.ilabel, a.olabel || b.olabel, a.weight || b.weight, a.nextstate || b.nextstate⟩

def inter (a b : Fields) : Fields :=
  ⟨a.ilabel && b.ilabel, a.olabel && b.olabel, a.weight && b.weight, a.nextstate && b.nextstate⟩

def compl (a : Fields) : Fields := ⟨!a.ilabel, !a.olabel, !a.weight, !a.nextstate⟩

/-- Whether all fields of `b` are selected. -/
def contains (a b : Fields) : Bool := a.inter b == b

/-- Whether some field is selected by both. -/
def intersects (a b : Fields) : Bool := a.inter b != none

/-- The fields of `mask` as `b` has them, the others as `a` has them. -/
def replace (a b mask : Fields) : Fields := (a.inter mask.compl).union (b.inter mask)

def bits (a : Fields) : Nat :=
  a.ilabel.toNat + 2 * a.olabel.toNat + 4 * a.weight.toNat + 8 * a.nextstate.toNat

/-- The selection with these bits; higher bits select nothing. -/
def ofBits (n : Nat) : Fields := ⟨n.testBit 0, n.testBit 1, n.testBit 2, n.testBit 3⟩

theorem ofBits_bits (a : Fields) : ofBits a.bits = a := by
  rcases a with ⟨i, o, w, n⟩
  cases i <;> cases o <;> cases w <;> cases n <;> decide

theorem compl_compl (a : Fields) : a.compl.compl = a := by
  simp [compl]

end Fields
end Transducer
