import Transducer.Label
import Transducer.SymbolTable
import Transducer.Header
/-!
# Machines

A weighted transducer as plain data: its start, a list of states with their final weight and
arcs in order, and the symbol tables of its labels. Asking for a state that does not exist gives
one that is not final and has no arcs; changing such a state is a fault. Main statements: what
each change does to the number of states, and the length of a linear machine.
-/
namespace Transducer

structure State where
  final : Weight
  arcs : List Arc
  deriving DecidableEq, Repr

namespace State

/-- What a state number without a state shows: not final and no arcs. -/
def absent : State := ⟨Weight.zero, []⟩

def isFinal (state : State) : Bool := !state.final.isZero

end State

structure Machine where
  start : StateId
  states : List State
  symbols : SymbolPair
  deriving DecidableEq, Repr

namespace Machine

/-- The machine without states. -/
def empty : Machine := ⟨noState, [], SymbolPair.none⟩

def numStates (m : Machine) : Nat := m.states.length

/-- The state of a number, or an absent one. -/
def state (m : Machine) (s : StateId) : State :=
  match position? s with
  | some i => m.states.getD i State.absent
  | none => State.absent

/-- Adds a state that is not final and gives its number. -/
def addState (m : Machine) : StateId × Machine :=
  (stateAt m.numStates, { m with states := m.states ++ [State.absent] })

def setStart (m : Machine) (s : StateId) : Machine := { m with start := s }

/-- Changes one state. -/
def modifyState (m : Machine) (s : StateId) (f : State → State) : Except Error Machine :=
  match position? s with
  | some i =>
    if i < m.numStates then .ok { m with states := m.states.modify i f }
    else .error (.fault .stateOutOfRange)
  | none => .error (.fault .stateOutOfRange)

def setFinal (m : Machine) (s : StateId) (weight : Weight) : Except Error Machine :=
  m.modifyState s fun state => { state with final := weight }

def addArc (m : Machine) (s : StateId) (arc : Arc) : Except Error Machine :=
  m.modifyState s fun state => { state with arcs := state.arcs ++ [arc] }

def setInputSymbols (m : Machine) (table : Option SymbolTable) : Machine :=
  { m with symbols := { m.symbols with input := table } }

def setOutputSymbols (m : Machine) (table : Option SymbolTable) : Machine :=
  { m with symbols := { m.symbols with output := table } }

/-- The states that accept the labels one after the other, the first of them at position `i`. -/
def chain (final : Weight) : Nat → List Label → List State
  | _, [] => [⟨final, []⟩]
  | i, label :: labels =>
    ⟨Weight.zero, [⟨label, label, Weight.one, stateAt (i + 1)⟩]⟩ :: chain final (i + 1) labels

/-- The machine that accepts one sequence of labels, at the given final weight. -/
def linear (labels : List Label) (final : Weight) : Machine :=
  ⟨0, chain final 0 labels, SymbolPair.none⟩

@[simp] theorem length_chain (final : Weight) (i : Nat) (labels : List Label) :
    (chain final i labels).length = labels.length + 1 := by
  induction labels generalizing i with
  | nil => rfl
  | cons label labels ih => simp [chain, ih]

theorem state_of_position {m : Machine} {s : StateId} {i : Nat} (h : position? s = some i) :
    m.state s = m.states.getD i State.absent := by
  simp [state, h]

theorem numStates_addState (m : Machine) : m.addState.2.numStates = m.numStates + 1 := by
  simp [addState, numStates]

theorem numStates_modifyState {m m' : Machine} {s : StateId} {f : State → State}
    (h : m.modifyState s f = .ok m') : m'.numStates = m.numStates := by
  unfold modifyState at h
  split at h
  · split at h
    · cases h; simp [numStates]
    · cases h
  · cases h

end Machine
end Transducer
