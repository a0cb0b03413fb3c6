import Transducer.Proofs.ViewFacts
/-!
# What a survey sees of a machine

A survey asks of a weight on an arc only whether it is a cost of its own, and of a final weight
whether it makes the state final besides. The outline of a machine keeps one weight for each of
these answers and everything else as it is. Main statement: a survey finds in the outline what it
finds in the machine (`survey_outline`), so machines of one outline have the same traits.
-/
namespace Transducer

namespace Weight

/-- The weight that stands for all weights of arcs which are costs alike. -/
def outline (w : Weight) : Weight := if Machine.costs w then bad else one

/-- The same for final weights, that of no path standing for itself. -/
def finalOutline (w : Weight) : Weight := if w.isZero then zero else w.outline

@[simp] theorem costs_outline (w : Weight) : Machine.costs w.outline = Machine.costs w := by
  unfold outline
  cases costs : Machine.costs w with
  | true => exact (by decide : Machine.costs bad = true)
  | false => exact Machine.costs_one

@[simp] theorem isZero_outline (w : Weight) : w.outline.isZero = false := by
  unfold outline
  cases Machine.costs w <;> decide

@[simp] theorem isZero_finalOutline (w : Weight) : w.finalOutline.isZero = w.isZero := by
  unfold finalOutline
  cases none_ : w.isZero with
  | true => exact (by decide : zero.isZero = true)
  | false => exact w.isZero_outline

@[simp] theorem costs_finalOutline (w : Weight) :
    Machine.costs w.finalOutline = Machine.costs w := by
  unfold finalOutline
  cases none_ : w.isZero with
  | true =>
    have free : Machine.costs w = false := by simp [Machine.costs, none_]
    rw [free]
    exact Machine.costs_zero
  | false => exact w.costs_outline

end Weight

def Arc.outline (a : Arc) : Arc := { a with weight := a.weight.outline }

def State.outline (state : State) : State := ⟨state.final.finalOutline, state.arcs.map Arc.outline⟩

namespace State

@[simp] theorem arcs_outline (state : State) :
    state.outline.arcs = state.arcs.map Arc.outline := rfl

@[simp] theorem isFinal_outline (state : State) : state.outline.isFinal = state.isFinal := by
  simp [isFinal, outline]

@[simp] theorem costs_final_outline (state : State) :
    Machine.costs state.outline.final = Machine.costs state.final :=
  state.final.costs_finalOutline

end State

namespace Machine

def outline (m : Machine) : Machine := { m with states := m.states.map State.outline }

@[simp] theorem numStates_outline (m : Machine) : m.outline.numStates = m.numStates := by
  simp [numStates, outline]

theorem numbered_outline (m : Machine) :
    m.outline.numbered = m.numbered.map fun (s, state) => (s, state.outline) := by
  simp [numbered, outline, List.zipIdx_map, Function.comp_def]

theorem graph_outline (m : Machine) : m.outline.graph = m.graph := by
  simp [graph, outline, Arc.outline, Function.comp_def]

theorem finals_outline (m : Machine) : m.outline.finals = m.finals := by
  simp [finals, outline, List.zipIdx_map, List.filter_map, Function.comp_def]

/-- No verdict of a survey depends on more than the outline. -/
theorem holds_outline (m : Machine) (t : Trait) : m.outline.holds t = m.holds t := by
  cases t with
  | acceptor | inputDeterministic | outputDeterministic | inputSorted | outputSorted =>
    simp [holds, allArcs, outline, Arc.outline, Function.comp_def]
  | epsilons | inputEpsilons | outputEpsilons | weighted =>
    simp [holds, anyArc, outline, Arc.outline, Function.comp_def]
  | cyclic => simp only [holds, graph_outline]
  | initialCyclic =>
    simp only [holds, graph_outline]
    rfl
  | topSorted =>
    simp only [holds, numbered_outline, List.all_map, State.arcs_outline, Function.comp_def]
    rfl
  | accessible =>
    simp only [holds, graph_outline, numStates_outline]
    rfl
  | coaccessible => simp only [holds, graph_outline, finals_outline]
  | string =>
    simp only [holds, isString, numbered_outline, finals_outline, List.all_map,
      State.isFinal_outline, State.arcs_outline, List.length_map, Function.comp_def]
    rfl

theorem survey_outline (m : Machine) : m.outline.survey = m.survey := by
  unfold survey
  rw [funext m.holds_outline]

end Machine
end Transducer
