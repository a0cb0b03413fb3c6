import Transducer.Proofs.TraitWord
/-!
# What packings rely on

A packing that drops a field of the arcs relies on a trait of the machine: on equal labels, on
the absence of weights, or on every arc leading to the next state. `Obeys` says what each of these
verdicts means for a view. A view is `Sound` when every such verdict it declares is true; the
survey never errs on them, so whatever a sound view answers is true (`obeys_of_test`).
-/
namespace Transducer

open TraitWord

namespace View

/-- A state number names one of the states. -/
def InRange (v : View) (s : StateId) : Prop := 0 ≤ s.toInt ∧ s.toInt < v.numStates

/-- Numbers that name no state show a state that is not final and has no arcs. -/
def Bare (v : View) : Prop := ∀ s, ¬ v.InRange s → v.final s = Weight.zero ∧ v.arcs s = []

/-- What a verdict on a trait that packings rely on means; of other verdicts nothing is said. -/
def Obeys (v : View) : Trait → Bool → Prop
  | .acceptor, true => ∀ s, ∀ a ∈ v.arcs s, a.olabel = a.ilabel
  | .weighted, false => ∀ s, Machine.costs (v.final s) = false
      ∧ ∀ a ∈ v.arcs s, Machine.costs a.weight = false
  | .string, true => ∀ s, ∀ a ∈ v.arcs s, a.nextstate = s + 1
  | _, _ => True

/-- The declared verdicts that packings rely on are true. -/
def Sound (v : View) : Prop := ∀ t verdict, Says v.properties t verdict → v.Obeys t verdict

theorem stateAt_toNat {s : StateId} (h : 0 ≤ s.toInt) : stateAt s.toInt.toNat = s := by
  rw [stateAt, ← Int32.ofInt_eq_ofNat, Int.toNat_of_nonneg h, Int32.ofInt_toInt]

theorem position?_of_nonneg {s : StateId} (h : 0 ≤ s.toInt) :
    position? s = some s.toInt.toNat := by
  rw [position?_eq_some_iff]
  omega

theorem mem_states_of_inRange {v : View} {s : StateId} (h : v.InRange s) : s ∈ v.states := by
  obtain ⟨nonneg, below⟩ := h
  refine List.mem_map.2 ⟨s.toInt.toNat, List.mem_range.2 (by omega), stateAt_toNat nonneg⟩

theorem inRange_of_mem_states {v : View} (small : v.numStates ≤ 2147483647) {s : StateId}
    (member : s ∈ v.states) : v.InRange s := by
  obtain ⟨i, below, rfl⟩ := List.mem_map.1 member
  have lt : i < v.numStates := List.mem_range.1 below
  have number : (stateAt i).toInt = i := Int32.toInt_ofNat_of_lt (by omega)
  unfold InRange
  omega

/-- The arcs of a bare view are those of its states. -/
theorem Bare.forall_arcs {v : View} (bare : v.Bare) {p : Arc → Prop}
    (h : ∀ s ∈ v.states, ∀ a ∈ v.arcs s, p a) : ∀ s, ∀ a ∈ v.arcs s, p a := by
  intro s a member
  by_cases inside : v.InRange s
  · exact h s (mem_states_of_inRange inside) a member
  · rw [(bare s inside).2] at member
    cases member

end View

namespace Machine

theorem state_of_not_inRange {m : Machine} {s : StateId} (outside : ¬ m.view.InRange s) :
    m.state s = State.absent := by
  unfold state
  split
  · rename_i i position
    rw [position?_eq_some_iff] at position
    have past : m.states.length ≤ i := by
      refine Nat.le_of_not_lt fun below => outside ⟨by omega, ?_⟩
      change s.toInt < m.states.length
      omega
    rw [List.getD_eq_getElem?_getD, List.getElem?_eq_none past, Option.getD_none]
  · rfl

/-- Under every number a view shows the state of that number, or nothing. -/
def Shows (m : Machine) (v : View) : Prop :=
  ∀ s, (s, State.mk (v.final s) (v.arcs s)) ∈ m.numbered
    ∨ (v.final s = Weight.zero ∧ v.arcs s = [])

theorem mem_states_of_mem_numbered {m : Machine} {s : StateId} {state : State}
    (h : (s, state) ∈ m.numbered) : state ∈ m.states := by
  obtain ⟨⟨found, i⟩, member, same⟩ := List.mem_map.1 h
  cases same
  exact List.fst_mem_of_mem_zipIdx member

theorem shows_view (m : Machine) : m.Shows m.view := by
  intro s
  change (s, m.state s) ∈ m.numbered ∨ ((m.state s).final = Weight.zero ∧ (m.state s).arcs = [])
  by_cases inside : m.view.InRange s
  · obtain ⟨nonneg, below⟩ := inside
    have lt : s.toInt.toNat < m.states.length := by
      change s.toInt < m.states.length at below
      omega
    refine Or.inl (List.mem_map.2 ⟨(m.states[s.toInt.toNat], s.toInt.toNat), ?_, ?_⟩)
    · exact List.mk_mem_zipIdx_iff_getElem?.2 (List.getElem?_eq_getElem lt)
    · change (stateAt s.toInt.toNat, m.states[s.toInt.toNat]) = (s, m.state s)
      rw [View.stateAt_toNat nonneg, state_of_position (View.position?_of_nonneg nonneg),
        List.getD_eq_getElem?_getD, List.getElem?_eq_getElem lt, Option.getD_some]
  · refine Or.inr ?_
    rw [state_of_not_inRange inside]
    exact ⟨rfl, rfl⟩

/-- What is true of the arcs of a machine is true of those that its view shows. -/
theorem forall_arcs_view {m : Machine} {p : Arc → Prop}
    (h : ∀ state ∈ m.states, ∀ a ∈ state.arcs, p a) : ∀ s, ∀ a ∈ m.view.arcs s, p a := by
  intro s a arc
  rcases m.shows_view s with found | ⟨_, nothing⟩
  · exact h _ (mem_states_of_mem_numbered found) a arc
  · rw [nothing] at arc
    cases arc

theorem costs_zero : costs Weight.zero = false := by decide

theorem costs_one : costs Weight.one = false := by decide

theorem holds_acceptor {m : Machine} (h : m.holds .acceptor = true) {state : State}
    (member : state ∈ m.states) {a : Arc} (arc : a ∈ state.arcs) : a.olabel = a.ilabel := by
  unfold holds allArcs at h
  rw [List.all_eq_true] at h
  have equal := List.all_eq_true.1 (h state member) a arc
  exact (beq_iff_eq.1 equal).symm

theorem holds_weighted {m : Machine} (h : m.holds .weighted = false) {state : State}
    (member : state ∈ m.states) :
    costs state.final = false ∧ ∀ a ∈ state.arcs, costs a.weight = false := by
  unfold holds at h
  have free := Bool.eq_false_iff.2 (List.any_eq_false.1 h state member)
  rw [Bool.or_eq_false_iff, List.any_eq_false] at free
  exact ⟨free.1, fun a arc => Bool.eq_false_iff.2 (free.2 a arc)⟩

theorem holds_string {m : Machine} (h : m.holds .string = true) {s : StateId} {state : State}
    (member : (s, state) ∈ m.numbered) {a : Arc} (arc : a ∈ state.arcs) :
    a.nextstate = s + 1 := by
  unfold holds isString at h
  rw [Bool.and_eq_true, Bool.and_eq_true, List.all_eq_true] at h
  have shape := Bool.and_eq_true_iff.1 (h.1.2 (s, state) member)
  exact beq_iff_eq.1 (List.all_eq_true.1 shape.1 a arc)

/-- The survey does not err on the verdicts that packings rely on. -/
theorem Shows.obeys {m : Machine} {v : View} (shows_ : m.Shows v) {t : Trait} {verdict : Bool}
    (h : m.holds t = verdict) : v.Obeys t verdict := by
  revert h
  unfold View.Obeys
  split
  · intro h s a arc
    rcases shows_ s with found | ⟨_, nothing⟩
    · exact holds_acceptor h (mem_states_of_mem_numbered found) arc
    · rw [nothing] at arc
      cases arc
  · intro h s
    rcases shows_ s with found | ⟨zero, nothing⟩
    · have free := holds_weighted h (mem_states_of_mem_numbered found)
      exact free
    · rw [zero, nothing]
      exact ⟨costs_zero, fun _ arc => nomatch arc⟩
  · intro h s a arc
    rcases shows_ s with found | ⟨_, nothing⟩
    · exact holds_string h found arc
    · rw [nothing] at arc
      cases arc
  · exact fun _ => trivial

end Machine

namespace View

theorem numbered_machine (v : View) :
    v.machine.numbered = v.states.map fun s => (s, ⟨v.final s, v.arcs s⟩) := by
  apply List.ext_getElem
  · simp [Machine.numbered, machine]
  · intro i _ _
    simp [Machine.numbered, machine, states]

theorem says_survey_iff {v : View} {t : Trait} {verdict : Bool} :
    Says v.survey t verdict ↔ v.machine.holds t = verdict :=
  says_ofVerdict _ t verdict

theorem length_finals (v : View) : v.machine.finals.length = v.states.countP v.isFinal := by
  have states : v.machine.states.countP State.isFinal = v.states.countP v.isFinal := by
    change (v.states.map _).countP _ = _
    rw [List.countP_map]
    rfl
  unfold Machine.finals
  rw [List.length_map, ← List.countP_eq_length_filter, ← states,
    ← List.zipIdx_map_fst 0 v.machine.states, List.countP_map, List.zipIdx_map_fst]
  rfl

theorem holds_string_iff {v : View} : v.machine.holds .string = true
    ↔ (v.start = noState ∨ v.start = 0)
      ∧ (∀ s ∈ v.states, (∀ a ∈ v.arcs s, a.nextstate = s + 1)
        ∧ (v.isFinal s = true ∨ v.numArcs s = 1))
      ∧ v.states.countP v.isFinal ≤ 1 := by
  change v.machine.isString = true ↔ _
  unfold Machine.isString
  rw [length_finals, numbered_machine]
  simp only [Bool.and_eq_true, Bool.or_eq_true, beq_iff_eq, decide_eq_true_eq, List.all_map,
    List.all_eq_true, and_assoc, Function.comp_apply]
  exact Iff.rfl

theorem Bare.shows_machine {v : View} (bare : v.Bare) : v.machine.Shows v := by
  intro s
  by_cases inside : v.InRange s
  · refine Or.inl ?_
    rw [numbered_machine]
    exact List.mem_map.2 ⟨s, mem_states_of_inRange inside, rfl⟩
  · exact Or.inr (bare s inside)

/-- What a sound view answers is true, declared or found. -/
theorem Sound.obeys_of_test {v : View} (sound : v.Sound) (bare : v.Bare) {mask : UInt64}
    {t : Trait} {verdict : Bool} (h : Says (v.test mask) t verdict) : v.Obeys t verdict := by
  rcases says_of_test h with declared | found
  · exact sound t verdict declared
  · exact bare.shows_machine.obeys found

/-- What is demanded of a sound view, and found with it, is true. -/
theorem Sound.obeys_of_compatible {v : View} (sound : v.Sound) (bare : v.Bare) {required : UInt64}
    (compatible : v.test required = required) {t : Trait} {verdict : Bool}
    (said : Says required t verdict) : v.Obeys t verdict := by
  rw [← compatible] at said
  exact sound.obeys_of_test bare said

end View

namespace Machine

theorem bare_view (m : Machine) : m.view.Bare := by
  intro s outside
  change (m.state s).final = Weight.zero ∧ (m.state s).arcs = []
  rw [state_of_not_inRange outside]
  exact ⟨rfl, rfl⟩

/-- A machine that can be changed declares what its survey finds. -/
theorem sound_view (m : Machine) : m.view.Sound := by
  intro t verdict said
  rcases says_or.1 said with said | impossible
  · rcases says_or.1 said with found | impossible
    · exact m.shows_view.obeys ((says_ofVerdict _ t verdict).1 found)
    · exact absurd impossible (not_says_mutable t verdict)
  · exact absurd impossible (not_says_expanded t verdict)

end Machine
end Transducer
