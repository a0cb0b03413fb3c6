import Transducer.Machine.Survey
/-!
# Views

What every form of a machine shows of itself: its states by number, the traits it declares, and
its symbol tables. Whatever takes a machine of any form takes a view of it. The declared traits
need not decide everything; a question they leave open is settled by a survey. Main statement:
the view of a machine shows that machine.
-/
namespace Transducer

structure View where
  typeName : String
  start : StateId
  numStates : Nat
  final : StateId → Weight
  arcs : StateId → List Arc
  inputEpsilons : StateId → Nat
  outputEpsilons : StateId → Nat
  properties : UInt64
  symbols : SymbolPair

namespace View

/-- The numbers of the states. How many there are must be a number too, so that what is said of all
states is said of at most 2147483647. -/
def states (v : View) : List StateId := (List.range v.numStates).map stateAt

def isFinal (v : View) (s : StateId) : Bool := !(v.final s).isZero

def numArcs (v : View) (s : StateId) : Nat := (v.arcs s).length

/-- What is counted at each state, summed over all of them. -/
def total (v : View) (count : StateId → Nat) : Nat :=
  v.states.foldr (fun s sum => count s + sum) 0

def totalArcs (v : View) : Nat := v.total v.numArcs

/-- The entries of a state: its final weight, if it is final, and its arcs. -/
def entries (v : View) (s : StateId) : List Arc :=
  (if v.isFinal s then [Arc.superfinal (v.final s)] else []) ++ v.arcs s

/-- The machine that a view shows. -/
def machine (v : View) : Machine :=
  ⟨v.start, v.states.map fun s => ⟨v.final s, v.arcs s⟩, v.symbols⟩

/-- The traits found by a survey of what the view shows. -/
def survey (v : View) : UInt64 := v.machine.survey

/-- The bits of `mask` that hold: as declared if all of them are decided so, otherwise as
surveyed. -/
def test (v : View) (mask : UInt64) : UInt64 :=
  if TraitWord.known v.properties &&& mask == mask then v.properties &&& mask
  else (v.survey ||| (v.properties &&& TraitWord.plain)) &&& mask

/-- Whether the view is that of a failure. -/
def isFailed (v : View) : Bool := v.properties &&& TraitWord.failed != 0

end View

namespace Machine

/-- The name of machines that can be changed. -/
def typeName : String := "vector"

def view (m : Machine) : View where
  typeName := typeName
  start := m.start
  numStates := m.numStates
  final s := (m.state s).final
  arcs s := (m.state s).arcs
  inputEpsilons s := (m.state s).arcs.countP fun arc => arc.ilabel == epsilon
  outputEpsilons s := (m.state s).arcs.countP fun arc => arc.olabel == epsilon
  properties := m.properties
  symbols := m.symbols

theorem machine_view {m : Machine} (h : m.numStates ≤ 2147483647) : m.view.machine = m := by
  have states : (m.view.states.map fun s => State.mk (m.view.final s) (m.view.arcs s))
      = m.states := by
    apply List.ext_getElem
    · simp [View.states, view, numStates]
    · intro i _ hi
      have inside : i < m.numStates := hi
      have small : i < 0x80000000 := by omega
      simp [View.states, view, state, position?_stateAt small, List.getD_eq_getElem?_getD, hi]
  cases m
  simp only [View.machine, states]
  rfl

end Machine
end Transducer
