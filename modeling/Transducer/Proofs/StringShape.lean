import Transducer.Proofs.LabelStrings
import Transducer.Proofs.StateGraph
import Transducer.Proofs.StoredStart
import Transducer.Summary
/-!
# The shape of a string

The survey of a string looks at one state after the other: arcs lead to the following state, a state
that is not final has one arc, and there is at most one final state. That the states form one chain
which ends in the last of them is not looked at, but follows when arcs lead to states only. Past
the last state there is none, so the last state has no arc and is final (`Surveyed.ends`); being the
only final state, it leaves one arc to every other. Main statement: what strings are, that the
labels along them are read off in order, and that the packing of strings with weights takes those
that are acceptors (`string_iff_isChain`).
-/
namespace Transducer

open TraitWord

namespace State

/-- The state is not final and has one arc, to the state at a position. -/
def StepsTo (state : State) (i : Nat) : Prop :=
  state.isFinal = false ∧ ∃ a, state.arcs = [a] ∧ position? a.nextstate = some i

/-- The state is final and has no arcs. -/
def Ends (state : State) : Prop := state.isFinal = true ∧ state.arcs = []

end State

/-- A number that names a position is the number of that position. -/
theorem eq_stateAt_of_position {s : StateId} {i : Nat} (position : position? s = some i) :
    s = stateAt i := by
  rw [position?_eq_some_iff] at position
  have number := View.stateAt_toNat (s := s) (by omega)
  rw [← number, position]
  rfl

namespace Machine

/-- Every arc leads to a state. -/
def Closed (m : Machine) : Prop :=
  ∀ state ∈ m.states, ∀ a ∈ state.arcs, m.view.InRange a.nextstate

/-- Every state but the last one steps to the state after it, and the last one ends. -/
def IsChain (m : Machine) : Prop := ∀ (i : Nat) (state : State), m.states[i]? = some state →
  if i + 1 < m.numStates then state.StepsTo (i + 1) else state.Ends

/-- What the survey of a string finds, state by state. -/
structure Surveyed (m : Machine) : Prop where
  arcs : ∀ (i : Nat) (state : State), m.states[i]? = some state →
    ∀ a ∈ state.arcs, a.nextstate = stateAt (i + 1)
  single : ∀ (i : Nat) (state : State), m.states[i]? = some state →
    state.isFinal = true ∨ state.arcs.length = 1
  unique : ∀ i ∈ m.finals, ∀ j ∈ m.finals, i = j

variable {m : Machine}

/-! ## The survey -/

theorem nodup_finals (m : Machine) : m.finals.Nodup := by
  have positions : List.Sublist m.finals (m.states.zipIdx.map (·.2)) :=
    List.filter_sublist.map _
  rw [List.zipIdx_map_snd] at positions
  exact positions.nodup List.nodup_range'

theorem length_finals_le_one_iff :
    m.finals.length ≤ 1 ↔ ∀ i ∈ m.finals, ∀ j ∈ m.finals, i = j := by
  have distinct := m.nodup_finals
  generalize m.finals = positions at distinct
  cases positions with
  | nil => simp
  | cons first rest =>
    cases rest with
    | nil => simp
    | cons second rest =>
      simp only [List.length_cons, List.nodup_cons] at distinct ⊢
      refine iff_of_false (by omega) fun same => ?_
      have equal := same first List.mem_cons_self second (by simp)
      simp [equal] at distinct

theorem holds_string_iff_surveyed :
    m.holds .string = true ↔ (m.start = 0 ∨ m.start = noState) ∧ m.Surveyed := by
  have places : (∀ entry ∈ m.numbered, (∀ a ∈ entry.2.arcs, a.nextstate = entry.1 + 1)
        ∧ (entry.2.isFinal = true ∨ entry.2.arcs.length = 1))
      ↔ ∀ (i : Nat) (state : State), m.states[i]? = some state →
        (∀ a ∈ state.arcs, a.nextstate = stateAt (i + 1))
          ∧ (state.isFinal = true ∨ state.arcs.length = 1) := by
    simp only [numbered, List.forall_mem_map, Prod.forall, List.mk_mem_zipIdx_iff_getElem?,
      stateAt_succ]
    exact forall_comm
  change m.isString = true ↔ _
  unfold isString
  simp only [Bool.and_eq_true, Bool.or_eq_true, beq_iff_eq, List.all_eq_true, decide_eq_true_eq,
    length_finals_le_one_iff]
  rw [places]
  constructor
  · rintro ⟨⟨start, states⟩, unique⟩
    exact ⟨start.symm, fun i state there => (states i state there).1,
      fun i state there => (states i state there).2, unique⟩
  · rintro ⟨start, arcs, single, unique⟩
    exact ⟨⟨start.symm, fun i state there => ⟨arcs i state there, single i state there⟩⟩, unique⟩

/-! ## From the survey to the chain -/

/-- A state that has no following state ends. -/
theorem Surveyed.ends (surveyed : m.Surveyed) (closed : m.Closed) {i : Nat} {state : State}
    (there : m.states[i]? = some state) (outside : ¬ m.view.InRange (stateAt (i + 1))) :
    state.Ends := by
  have arcs : state.arcs = [] := by
    rw [List.eq_nil_iff_forall_not_mem]
    intro a arc
    have inside := closed state (List.mem_of_getElem? there) a arc
    rw [surveyed.arcs i state there a arc] at inside
    exact outside inside
  refine ⟨?_, arcs⟩
  rcases surveyed.single i state there with final | one
  · exact final
  · simp [arcs] at one

theorem Surveyed.mem_finals_of_outside (surveyed : m.Surveyed) (closed : m.Closed) {i : Nat}
    (inside : i < m.numStates) (outside : ¬ m.view.InRange (stateAt (i + 1))) : i ∈ m.finals := by
  have there : m.states[i]? = some m.states[i] := List.getElem?_eq_getElem inside
  exact mem_finals.2 ⟨_, there, (surveyed.ends closed there outside).1⟩

/-- No state follows the last one. -/
theorem not_inRange_numStates (small : m.numStates ≤ 2147483647) :
    ¬ m.view.InRange (stateAt m.numStates) := by
  rintro ⟨_, below⟩
  change (stateAt m.numStates).toInt < m.numStates at below
  have number : (stateAt m.numStates).toInt = m.numStates := Int32.toInt_ofNat_of_lt (by omega)
  omega

theorem Surveyed.isChain (surveyed : m.Surveyed) (closed : m.Closed)
    (small : m.numStates ≤ 2147483647) : m.IsChain := by
  intro i state there
  have inside : i < m.numStates := (List.getElem?_eq_some_iff.1 there).1
  split
  · rename_i more
    -- The last state is final, so this one is not.
    have last : m.numStates - 1 ∈ m.finals := by
      refine surveyed.mem_finals_of_outside closed (by omega) ?_
      rw [Nat.sub_add_cancel (by omega)]
      exact not_inRange_numStates small
    have final : state.isFinal = false := by
      refine Bool.eq_false_iff.2 fun final => ?_
      have same := surveyed.unique _ (mem_finals.2 ⟨state, there, final⟩) _ last
      omega
    refine ⟨final, ?_⟩
    rcases surveyed.single i state there with impossible | one
    · rw [final] at impossible
      cases impossible
    · obtain ⟨a, single⟩ := List.length_eq_one_iff.1 one
      have next := surveyed.arcs i state there a (by simp [single])
      refine ⟨a, single, ?_⟩
      rw [next]
      exact position?_stateAt (by omega)
  · rename_i none_
    have end_ : i + 1 = m.numStates := by omega
    refine surveyed.ends closed there ?_
    rw [end_]
    exact not_inRange_numStates small

/-! ## From the chain to the survey -/

theorem IsChain.surveyed (chain : m.IsChain) : m.Surveyed := by
  have last {i : Nat} (final : i ∈ m.finals) : i + 1 = m.numStates := by
    obtain ⟨state, there, final⟩ := mem_finals.1 final
    have inside : i < m.numStates := (List.getElem?_eq_some_iff.1 there).1
    have here := chain i state there
    split at here
    · rw [here.1] at final
      cases final
    · omega
  refine ⟨?_, ?_, fun i first j second => ?_⟩
  · intro i state there a arc
    have here := chain i state there
    split at here
    · obtain ⟨_, b, single, next⟩ := here
      rw [single, List.mem_singleton] at arc
      rw [arc]
      exact eq_stateAt_of_position next
    · rw [here.2] at arc
      cases arc
  · intro i state there
    have here := chain i state there
    split at here
    · obtain ⟨_, b, single, _⟩ := here
      exact Or.inr (by simp [single])
    · exact Or.inl here.1
  · have one := last first
    have other := last second
    omega

theorem holds_string_iff_isChain (closed : m.Closed) (small : m.numStates ≤ 2147483647) :
    m.holds .string = true ↔ (m.start = 0 ∨ m.start = noState) ∧ m.IsChain := by
  rw [holds_string_iff_surveyed]
  exact and_congr_right fun _ => ⟨fun surveyed => surveyed.isChain closed small, IsChain.surveyed⟩

/-! ## Along the chain -/

/-- What a view of a chain shows under the number of a position. -/
theorem IsChain.shown (chain : m.IsChain) {s : StateId} {i : Nat} (position : position? s = some i)
    (inside : i < m.numStates) :
    m.states[i]? = some (m.state s)
      ∧ if i + 1 < m.numStates then (m.state s).StepsTo (i + 1) else (m.state s).Ends := by
  have there : m.states[i]? = some (m.state s) := by
    rw [state_of_position position, List.getD_eq_getElem?_getD, List.getElem?_eq_getElem inside,
      Option.getD_some]
  exact ⟨there, chain i _ there⟩

/-- A chain has one entry in every state. -/
theorem IsChain.length_entries (chain : m.IsChain) (small : m.numStates ≤ 2147483647)
    {s : StateId} (state : s ∈ m.view.states) :
    (m.view.entries s).length = 1 := by
  obtain ⟨i, listed, rfl⟩ := List.mem_map.1 state
  have inside : i < m.numStates := List.mem_range.1 listed
  have position := position?_stateAt (i := i) (by omega)
  obtain ⟨_, here⟩ := chain.shown position inside
  rw [View.length_entries]
  change (m.state (stateAt i)).arcs.length + (m.state (stateAt i)).isFinal.toNat = 1
  split at here
  · obtain ⟨passed, a, single, _⟩ := here
    rw [single, passed]
    rfl
  · rw [here.1, here.2]
    rfl

/-- The input labels of all arcs from a position on, in the order of the states. -/
def inputLabelsFrom (m : Machine) (i : Nat) : List Label :=
  (m.states.drop i).flatMap fun state => state.arcs.map Arc.ilabel

theorem inputLabelsFrom_eq {i : Nat} {state : State} (there : m.states[i]? = some state) :
    m.inputLabelsFrom i = state.arcs.map Arc.ilabel ++ m.inputLabelsFrom (i + 1) := by
  obtain ⟨inside, rfl⟩ := List.getElem?_eq_some_iff.1 there
  unfold inputLabelsFrom
  rw [List.drop_eq_getElem_cons inside, List.flatMap_cons]

theorem inputLabelsFrom_of_le {i : Nat} (past : m.numStates ≤ i) : m.inputLabelsFrom i = [] := by
  unfold inputLabelsFrom
  rw [List.drop_eq_nil_of_le past, List.flatMap_nil]

/-- By induction on the states that are left: a walk from one of them reads the labels of the arcs
from there on, one for each state but the last. -/
theorem IsChain.labelsFrom (chain : m.IsChain) {steps i : Nat} {s : StateId}
    (position : position? s = some i) (left : i + steps + 1 = m.numStates) :
    m.view.labelsFrom (steps + 1) s = some (m.inputLabelsFrom i)
      ∧ (m.inputLabelsFrom i).length = steps := by
  induction steps generalizing i s with
  | zero =>
    obtain ⟨there, here⟩ := chain.shown position (by omega)
    rw [if_neg (by omega)] at here
    have arcs : m.view.arcs s = [] := here.2
    have final : m.view.isFinal s = true := here.1
    rw [inputLabelsFrom_eq there, here.2, inputLabelsFrom_of_le (by omega), View.labelsFrom, arcs,
      final]
    exact ⟨rfl, rfl⟩
  | succ steps ih =>
    obtain ⟨there, here⟩ := chain.shown position (by omega)
    rw [if_pos (by omega)] at here
    obtain ⟨passed, a, single, next⟩ := here
    have arcs : m.view.arcs s = [a] := single
    have final : m.view.isFinal s = false := passed
    obtain ⟨rest, length⟩ := ih next (by omega)
    rw [inputLabelsFrom_eq there, single, View.labelsFrom, arcs, final]
    simp [rest, length]

/-- The labels along a chain are those of its arcs, and one fewer than its states. -/
theorem IsChain.stringLabels (chain : m.IsChain) (start : m.start = 0) (some_ : 0 < m.numStates) :
    m.view.stringLabels? = some (m.inputLabelsFrom 0)
      ∧ (m.inputLabelsFrom 0).length + 1 = m.numStates := by
  have first : position? m.start = some 0 := by
    rw [start]
    rfl
  have left : 0 + (m.numStates - 1) + 1 = m.numStates := by omega
  obtain ⟨walk, length⟩ := chain.labelsFrom first left
  rw [Nat.sub_add_cancel some_] at walk
  have begins : m.view.start ≠ noState := by
    change m.start ≠ noState
    rw [start]
    decide
  refine ⟨?_, by omega⟩
  unfold View.stringLabels?
  rw [if_neg begins]
  exact walk

/-- Strings with weights take up one element for each state, and a chain has one entry there. -/
theorem IsChain.exists_ofView? (chain : m.IsChain) (small : m.numStates ≤ 2147483647)
    (string : m.holds .string = true) (acceptor : m.holds .acceptor = true) (algebra : Algebra)
    (width : OffsetWidth) :
    ∃ c : Compact (Stock.weightedString.format algebra width),
      Compact.ofView? () m.view = .ok c := by
  have checked : Compact.checkSource Stock.weightedString.packing m.view = .ok () := by
    refine Compact.checkSource_view_iff.2 fun t verdict said => ?_
    rcases Stock.says_required said with ⟨_, rfl, rfl⟩ | ⟨impossible, _⟩ | ⟨_, rfl, rfl⟩
    · exact acceptor
    · cases impossible
    · exact string
  have fits : m.view.Fits Stock.weightedString.packing width := by
    rw [View.fits_iff_of_fixed rfl]
    exact List.forall_mem_map.2 fun s state => chain.length_entries small state
  exact Compact.ofView?_of_fits (F := Stock.weightedString.format algebra width) () checked fits

end Machine

/-- Of the machines whose states can be numbered and whose arcs lead to states, the strings are those
that start at their first state or nowhere and are one chain: every state but the last is not final
and has one arc, to the following state, and the last one is final and has none. The labels along a
string that starts at its first state are those of the arcs in the order of the states. A string
that is an acceptor is packed as a string with weights. -/
theorem string_iff_isChain (m : Machine) (closed : m.Closed)
    (small : m.numStates ≤ 2147483647) :
    (hasAll m.survey Trait.string.yes = true
        ↔ (m.start = 0 ∨ m.start = noState) ∧ m.IsChain)
      ∧ (hasAll m.survey Trait.string.yes = true → m.start = 0 → 0 < m.numStates →
        m.view.stringLabels? = some (m.states.flatMap fun state => state.arcs.map Arc.ilabel)
          ∧ (m.states.flatMap fun state => state.arcs.map Arc.ilabel).length + 1 = m.numStates)
      ∧ (hasAll m.survey Trait.string.yes = true → hasAll m.survey Trait.acceptor.yes = true →
        ∀ algebra width, ∃ c : Compact (Stock.weightedString.format algebra width),
          Compact.ofView? () m.view = .ok c) := by
  have found (t : Trait) : hasAll m.survey t.yes = true ↔ m.holds t = true := by
    rw [hasAll_yes_iff]
    exact says_ofVerdict _ t true
  simp only [found]
  have shape := Machine.holds_string_iff_isChain closed small
  refine ⟨shape, fun string start some_ => ?_, fun string acceptor algebra width => ?_⟩
  · exact (shape.1 string).2.stringLabels start some_
  · exact (shape.1 string).2.exists_ofView? small string acceptor algebra width

/-- A string of two labels. -/
theorem string_iff_isChain_pair :
    (Machine.linear [7, 3] Weight.one).IsChain
      ∧ (Machine.linear [7, 3] Weight.one).view.stringLabels? = some [7, 3]
      ∧ ∃ c : Compact (Stock.weightedString.format .tropical .four),
        Compact.ofView? () (Machine.linear [7, 3] Weight.one).view = .ok c := by
  have closed : (Machine.linear [7, 3] Weight.one).Closed := by
    unfold Machine.Closed View.InRange
    decide
  have string : hasAll (Machine.linear [7, 3] Weight.one).survey Trait.string.yes = true := by cbv
  have acceptor : hasAll (Machine.linear [7, 3] Weight.one).survey Trait.acceptor.yes = true := by
    cbv
  obtain ⟨shape, labels, packs⟩ :=
    string_iff_isChain (Machine.linear [7, 3] Weight.one) closed (by decide)
  exact ⟨(shape.1 string).2, (labels string rfl (by decide)).1,
    packs string acceptor .tropical .four⟩

end Transducer
