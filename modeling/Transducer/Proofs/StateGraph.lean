import Mathlib.Logic.Relation
import Transducer.Proofs.TraitWord
/-!
# The graph of the states

What the traits of paths are about: the states of a view by their positions, and the arcs that lead
from one of them to another. Arcs that lead to no state are left out, whatever their number. Main
statements: the graph that a survey searches has these edges (`edge_graph`), and its word decides a
trait by the fact that the verdict stands for (`decides_survey`).
-/
namespace Transducer

open Relation (ReflTransGen TransGen)

namespace TraitWord

/-- A word has the one bit of a trait exactly if the fact holds, and the other exactly if not. -/
def Decides (word : UInt64) (t : Trait) (fact : Prop) : Prop :=
  (Says word t true ↔ fact) ∧ (Says word t false ↔ ¬ fact)

end TraitWord

namespace View

/-- An arc of the state at one position leads to the state at another. -/
def Leads (v : View) (i j : Nat) : Prop :=
  i < v.numStates ∧ j < v.numStates ∧ ∃ a ∈ v.arcs (stateAt i), position? a.nextstate = some j

/-- A path leads from one state to another; it may have no arcs. -/
def Reaches (v : View) (i j : Nat) : Prop := ReflTransGen v.Leads i j

/-- A path of at least one arc leads from a state back to it. -/
def Returns (v : View) (i : Nat) : Prop := TransGen v.Leads i i

/-- The start is the state at a position. -/
def StartsAt (v : View) (i : Nat) : Prop := position? v.start = some i ∧ i < v.numStates

end View

theorem Machine.mem_finals {m : Machine} {i : Nat} :
    i ∈ m.finals ↔ ∃ state, m.states[i]? = some state ∧ state.isFinal = true := by
  simp [finals, List.mk_mem_zipIdx_iff_getElem?]

namespace View

variable {v : View} {i : Nat}

theorem getElem?_states_machine (inside : i < v.numStates) :
    v.machine.states[i]? = some ⟨v.final (stateAt i), v.arcs (stateAt i)⟩ := by
  simp [machine, states, inside]

@[simp] theorem numStates_machine (v : View) : v.machine.numStates = v.numStates := by
  simp [Machine.numStates, machine, states]

@[simp] theorem size_graph (v : View) : v.machine.graph.size = v.numStates := by
  simp [Graph.size, Machine.graph, machine, states]

theorem next_graph (inside : i < v.numStates) :
    v.machine.graph.next i = (v.arcs (stateAt i)).filterMap fun a => position? a.nextstate := by
  apply Graph.next_of_getElem?
  simp [Machine.graph, getElem?_states_machine inside]

/-- The graph that a survey searches has the edges of the view. -/
theorem edge_graph (v : View) : v.machine.graph.Edge = v.Leads := by
  funext i j
  unfold Graph.Edge Leads
  rw [size_graph]
  by_cases inside : i < v.numStates
  · simp [next_graph inside, inside, and_comm]
  · simp [Graph.next_eq_nil, Nat.le_of_not_lt inside, inside]

theorem mem_finals_machine :
    i ∈ v.machine.finals ↔ i < v.numStates ∧ v.isFinal (stateAt i) = true := by
  rw [Machine.mem_finals]
  by_cases inside : i < v.numStates
  · simp [getElem?_states_machine inside, inside, State.isFinal, isFinal]
  · have none_ : v.machine.states[i]? = none := by
      simp [machine, states, Nat.le_of_not_lt inside]
    simp [none_, inside]

/-- The word of a survey decides each trait by what the verdict on it stands for. -/
theorem decides_survey {t : Trait} {fact : Prop} (verdict : v.machine.holds t = true ↔ fact) :
    TraitWord.Decides v.survey t fact := by
  have saying (found : Bool) : TraitWord.Says v.survey t found ↔ v.machine.holds t = found :=
    TraitWord.says_ofVerdict _ t found
  refine ⟨(saying true).trans verdict, (saying false).trans ?_⟩
  rw [← verdict, Bool.not_eq_true]

end View
end Transducer
