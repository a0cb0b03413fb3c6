import Transducer.Graph
import Transducer.Machine
import Transducer.Trait
/-!
# Surveying a machine

The verdict on every trait of a machine, found by looking at all its states. Traits of single
arcs and of the arcs of one state are read off the states; traits of paths are questions about
the graph of the states, from which arcs to states that do not exist are left out.
-/
namespace Transducer.Machine

/-- Whether no label comes twice. -/
def distinct : List Label → Bool
  | [] => true
  | label :: rest => !rest.contains label && distinct rest

/-- Whether no label is below the one before it. -/
def ascending : List Label → Bool
  | first :: second :: rest => first ≤ second && ascending (second :: rest)
  | _ => true

/-- Whether a weight is a cost of its own, neither that of the empty path nor of none. -/
def costs (w : Weight) : Bool := !w.isOne && !w.isZero

/-- The states with their numbers. -/
def numbered (m : Machine) : List (StateId × State) :=
  m.states.zipIdx.map fun (state, i) => (stateAt i, state)

def allArcs (m : Machine) (p : Arc → Bool) : Bool := m.states.all fun state => state.arcs.all p

def anyArc (m : Machine) (p : Arc → Bool) : Bool := m.states.any fun state => state.arcs.any p

/-- The states as a graph. -/
def graph (m : Machine) : Graph :=
  ⟨m.states.map fun state => state.arcs.filterMap fun arc => position? arc.nextstate⟩

/-- The positions of the final states. -/
def finals (m : Machine) : List Nat :=
  (m.states.zipIdx.filter fun (state, _) => state.isFinal).map (·.2)

/-- Whether the machine has the shape of a string: each state leads to the next one only, a
state that is not final has one arc, and at most one state is final. -/
def isString (m : Machine) : Bool :=
  (m.start == noState || m.start == 0)
    && (m.numbered.all fun (s, state) =>
      (state.arcs.all fun arc => arc.nextstate == s + 1)
        && (state.isFinal || state.arcs.length == 1))
    && m.finals.length ≤ 1

/-- The verdict on a trait. -/
def holds (m : Machine) : Trait → Bool
  | .acceptor => m.allArcs fun arc => arc.ilabel == arc.olabel
  | .inputDeterministic => m.states.all fun state => distinct (state.arcs.map Arc.ilabel)
  | .outputDeterministic => m.states.all fun state => distinct (state.arcs.map Arc.olabel)
  | .epsilons => m.anyArc fun arc => arc.ilabel == epsilon && arc.olabel == epsilon
  | .inputEpsilons => m.anyArc fun arc => arc.ilabel == epsilon
  | .outputEpsilons => m.anyArc fun arc => arc.olabel == epsilon
  | .inputSorted => m.states.all fun state => ascending (state.arcs.map Arc.ilabel)
  | .outputSorted => m.states.all fun state => ascending (state.arcs.map Arc.olabel)
  | .weighted => m.states.any fun state =>
      costs state.final || state.arcs.any fun arc => costs arc.weight
  | .cyclic => m.graph.hasCycle
  | .initialCyclic =>
    match position? m.start with
    | some start => m.graph.returnsTo start
    | none => false
  | .topSorted => m.numbered.all fun (s, state) => state.arcs.all fun arc => s < arc.nextstate
  | .accessible =>
    m.numStates == 0 || match position? m.start with
      | some start => m.graph.reachesAll [start]
      | none => false
  | .coaccessible => m.graph.reversed.reachesAll m.finals
  | .string => m.isString

/-- The word of the verdicts on all traits. -/
def survey (m : Machine) : UInt64 := TraitWord.ofVerdict m.holds

/-- What a machine that can be changed says of itself. -/
def properties (m : Machine) : UInt64 :=
  m.survey ||| TraitWord.mutable ||| TraitWord.expanded

end Transducer.Machine
