import Transducer.Weight
/-!
# Labels, states and arcs

Labels and state numbers are 32-bit words. Two values are reserved: `noLabel` marks the entry
that carries a final weight, and `noState` stands for no state at all. Main statements: which
state numbers name a position, and that positions come back from their numbers.
-/
namespace Transducer

/-- An input or output label of an arc. -/
abbrev Label := Int32

/-- The number of a state; the states of a machine are numbered from zero. -/
abbrev StateId := Int32

/-- The label of a final entry. -/
def noLabel : Label := -1

/-- No state: the start of an empty machine, the target of a final entry. -/
def noState : StateId := -1

/-- The empty label. -/
def epsilon : Label := 0

/-- The position a state number names; negative numbers name none. -/
def position? (s : StateId) : Option Nat :=
  if s < 0 then none else some s.toInt.toNat

/-- The number of the state at a position. -/
def stateAt (i : Nat) : StateId := Int32.ofNat i

/-- A transition between two states. -/
structure Arc where
  ilabel : Label
  olabel : Label
  weight : Weight
  nextstate : StateId
  deriving DecidableEq, Repr, Inhabited

namespace Arc

/-- The entry that carries a final weight in the place of an arc. -/
def superfinal (weight : Weight) : Arc := ⟨noLabel, noLabel, weight, noState⟩

def isSuperfinal (a : Arc) : Bool :=
  a.ilabel == noLabel && a.olabel == noLabel && a.nextstate == noState

/-- Equality with the weights compared as numbers. -/
def same (a b : Arc) : Bool :=
  a.ilabel == b.ilabel && a.olabel == b.olabel && a.weight.same b.weight
    && a.nextstate == b.nextstate

theorem isSuperfinal_superfinal (w : Weight) : (superfinal w).isSuperfinal = true := rfl

end Arc

theorem position?_eq_some_iff {s : StateId} {i : Nat} :
    position? s = some i ↔ s.toInt = i := by
  unfold position?
  have : s < 0 ↔ s.toInt < 0 := by rw [Int32.lt_iff_toInt_lt]; rfl
  split <;> rename_i h <;> rw [this] at h
  · constructor
    · intro e; cases e
    · omega
  · rw [Option.some.injEq]; omega

theorem position?_eq_none_iff {s : StateId} : position? s = none ↔ s.toInt < 0 := by
  unfold position?
  have : s < 0 ↔ s.toInt < 0 := by rw [Int32.lt_iff_toInt_lt]; rfl
  split <;> simp_all

theorem position?_stateAt {i : Nat} (h : i < 0x80000000) : position? (stateAt i) = some i := by
  rw [position?_eq_some_iff]
  exact Int32.toInt_ofNat_of_lt h

end Transducer
