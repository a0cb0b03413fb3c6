import Transducer.Proofs.GatheredTraits
import Transducer.Proofs.StoredStart
import Transducer.Summary
/-!
# Strings from labels

A list of labels, or of labels with weights, makes a string: one element for each label and an end,
which is added if it is missing. The same string is the packed form of a machine whose states stand
in a line, with one arc from each state to the next (`Machine.line`). Both have one row for each
state (`rowsOf_line`), and the elements are enough to decode the line again, with the next states
that no element keeps. Main statement: labels other than the reserved one make the line that carries
them, with or without the end, and the labels are read off the line again (`strings_of_labels`).
-/
namespace Transducer

theorem stateAt_succ (i : Nat) : stateAt (i + 1) = stateAt i + 1 := Int32.ofNat_add i 1

/-- The arc of a step along a line, to the state after the one at a position. -/
def WeightedLabel.arcFrom (step : WeightedLabel) (i : Nat) : Arc :=
  ⟨step.label, step.label, step.weight, stateAt (i + 1)⟩

namespace Machine

/-- The states along a line of steps, only the last of them final. -/
def lineStates (steps : List WeightedLabel) (final : Weight) : List State :=
  (steps.zipIdx.map fun numbered => ⟨Weight.zero, [numbered.1.arcFrom numbered.2]⟩)
    ++ [⟨final, []⟩]

/-- The machine that accepts one sequence of labels, each at a weight of its own. -/
def line (steps : List WeightedLabel) (final : Weight) : Machine :=
  ⟨0, lineStates steps final, SymbolPair.none⟩

variable {steps : List WeightedLabel} {final : Weight} {i : Nat} {state : State}

theorem chain_eq (final : Weight) (i : Nat) (labels : List Label) :
    chain final i labels
      = (((labels.map fun label => WeightedLabel.mk label Weight.one).zipIdx i).map
        fun numbered => ⟨Weight.zero, [numbered.1.arcFrom numbered.2]⟩) ++ [⟨final, []⟩] := by
  induction labels generalizing i with
  | nil => rfl
  | cons label labels ih =>
    rw [chain, ih]
    rfl

/-- A linear machine is a line without weights. -/
theorem linear_eq_line (labels : List Label) (final : Weight) :
    linear labels final
      = line (labels.map fun label => WeightedLabel.mk label Weight.one) final := by
  unfold linear line lineStates
  rw [chain_eq]

theorem numStates_line (steps : List WeightedLabel) (final : Weight) :
    (line steps final).numStates = steps.length + 1 := by
  simp [numStates, line, lineStates]

theorem getElem?_lineStates {step : WeightedLabel} (there : steps[i]? = some step) :
    (lineStates steps final)[i]? = some ⟨Weight.zero, [step.arcFrom i]⟩ := by
  obtain ⟨before, rfl⟩ := List.getElem?_eq_some_iff.1 there
  unfold lineStates
  rw [List.getElem?_append_left (by simpa using before)]
  simp [before]

theorem getElem?_length_lineStates (steps : List WeightedLabel) (final : Weight) :
    (lineStates steps final)[steps.length]? = some ⟨final, []⟩ := by
  simp [lineStates]

/-- A state of a line is that of a step, or the last one. -/
theorem cases_of_lineStates (there : (lineStates steps final)[i]? = some state) :
    (∃ step, steps[i]? = some step ∧ state = ⟨Weight.zero, [step.arcFrom i]⟩)
      ∨ (i = steps.length ∧ state = ⟨final, []⟩) := by
  rcases Nat.lt_trichotomy i steps.length with before | here | behind
  · have step := List.getElem?_eq_getElem before
    rw [getElem?_lineStates step] at there
    exact Or.inl ⟨_, step, (Option.some.inj there).symm⟩
  · rw [here, getElem?_length_lineStates] at there
    exact Or.inr ⟨here, (Option.some.inj there).symm⟩
  · rw [List.getElem?_eq_none (by simp [lineStates]; omega)] at there
    cases there

theorem cases_of_mem_lineStates (member : state ∈ lineStates steps final) :
    (∃ step ∈ steps, ∃ i, state = ⟨Weight.zero, [step.arcFrom i]⟩) ∨ state = ⟨final, []⟩ := by
  obtain ⟨i, there⟩ := List.mem_iff_getElem?.1 member
  rcases cases_of_lineStates there with ⟨step, here, rfl⟩ | ⟨_, rfl⟩
  · exact Or.inl ⟨step, List.mem_of_getElem? here, i, rfl⟩
  · exact Or.inr rfl

/-! ## Traits of lines -/

theorem holds_acceptor_line (steps : List WeightedLabel) (final : Weight) :
    (line steps final).holds .acceptor = true := by
  refine List.all_eq_true.2 fun state member => ?_
  rcases cases_of_mem_lineStates member with ⟨step, _, i, rfl⟩ | rfl
  · simp [WeightedLabel.arcFrom]
  · rfl

theorem holds_weighted_line (free : ∀ step ∈ steps, step.weight = Weight.one) :
    (line steps Weight.one).holds .weighted = false := by
  refine List.any_eq_false.2 fun state member => ?_
  rcases cases_of_mem_lineStates member with ⟨step, listed, i, rfl⟩ | rfl
  · simp [WeightedLabel.arcFrom, free step listed, costs_zero, costs_one]
  · simp [costs_one]

theorem length_finals_line (steps : List WeightedLabel) (final : Weight) :
    (line steps final).finals.length ≤ 1 := by
  have before : ((steps.zipIdx.map fun numbered =>
      State.mk Weight.zero [numbered.1.arcFrom numbered.2]).zipIdx).filter
        (fun placed => placed.1.isFinal) = [] := by
    refine List.filter_eq_nil_iff.2 fun placed member => ?_
    obtain ⟨_, _, same⟩ := List.mem_map.1 (List.fst_mem_of_mem_zipIdx member)
    rw [← same]
    exact Bool.false_ne_true
  unfold finals
  rw [List.length_map]
  change ((lineStates steps final).zipIdx.filter fun placed => placed.1.isFinal).length ≤ 1
  unfold lineStates
  rw [List.zipIdx_append, List.filter_append, before, List.nil_append]
  exact List.length_filter_le _ _

/-- Each state of a line has the following state as the next one. -/
theorem holds_string_line (solid : final.isZero = false) :
    (line steps final).holds .string = true := by
  have shape : ∀ entry ∈ (line steps final).numbered,
      (entry.2.arcs.all fun arc => arc.nextstate == entry.1 + 1)
        && (entry.2.isFinal || entry.2.arcs.length == 1) := by
    intro entry member
    obtain ⟨⟨state, i⟩, listed, rfl⟩ := List.mem_map.1 member
    rcases cases_of_lineStates (List.mk_mem_zipIdx_iff_getElem?.1 listed) with
      ⟨step, _, rfl⟩ | ⟨_, rfl⟩
    · simp [WeightedLabel.arcFrom, stateAt_succ]
    · simp [State.isFinal, solid]
  have begins : (line steps final).start = 0 := rfl
  change (line steps final).isString = true
  unfold isString
  rw [begins, decide_eq_true (length_finals_line steps final)]
  simpa using shape

end Machine

/-! ## Elements of strings -/

/-- The element of a step; where it leads is left out. -/
def Stock.ofStep (k : Stock) (payload : k.packing.Payload) (step : WeightedLabel) :
    k.packing.Element :=
  k.packing.pack payload 0 ⟨step.label, step.label, step.weight, 0⟩

/-- The element at the end of a string. -/
def Stock.stop (k : Stock) (payload : k.packing.Payload) : k.packing.Element :=
  k.packing.pack payload 0 (Arc.superfinal Weight.one)

/-- The elements of a whole string: those of its steps, and the end. -/
def Stock.spelled (k : Stock) (payload : k.packing.Payload) (steps : List WeightedLabel) :
    List k.packing.Element :=
  steps.map (k.ofStep payload) ++ [k.stop payload]

/-- No step has the reserved label, nor a weight that is not kept. -/
structure Stock.Spells (k : Stock) (steps : List WeightedLabel) : Prop where
  plain : ∀ step ∈ steps, step.label ≠ noLabel
  free : k.keepsWeights = false → ∀ step ∈ steps, step.weight = Weight.one

section Elements

variable {k : Stock} {payload : k.packing.Payload}

@[simp] theorem length_spelled (payload : k.packing.Payload) (steps : List WeightedLabel) :
    (k.spelled payload steps).length = steps.length + 1 := by
  simp [Stock.spelled]

theorem getElem?_spelled {steps : List WeightedLabel} {step : WeightedLabel} {i : Nat}
    (there : steps[i]? = some step) :
    (k.spelled payload steps)[i]? = some (k.ofStep payload step) := by
  have before := (List.getElem?_eq_some_iff.1 there).1
  unfold Stock.spelled
  rw [List.getElem?_append_left (by rwa [List.length_map]), List.getElem?_map, there]
  rfl

theorem getElem?_length_spelled (payload : k.packing.Payload) (steps : List WeightedLabel) :
    (k.spelled payload steps)[steps.length]? = some (k.stop payload) := by
  simp [Stock.spelled]

theorem isFinalEntry_stop (payload : k.packing.Payload) (reader : StateId) :
    k.packing.isFinalEntry payload reader (k.stop payload) = true :=
  Stock.isFinalEntry_pack k payload reader 0 _

/-- An end that is there is left as it is. -/
theorem terminated_concat_stop (elements : List k.packing.Element) :
    Store.terminated k.packing payload (elements ++ [k.stop payload])
      = elements ++ [k.stop payload] := by
  unfold Store.terminated
  simp only [List.getLast?_concat, Option.any_some, isFinalEntry_stop, if_true]

variable (dropped : k.keepsTarget = false)
include dropped

theorem pack_of_string (s : StateId) (arc : Arc) :
    k.packing.pack payload s arc = k.ofStep payload ⟨arc.ilabel, arc.weight⟩ := by
  cases k with
  | string | weightedString => rfl
  | unweightedAcceptor | acceptor | unweighted => cases dropped

/-- An end is added where there is none. -/
theorem terminated_of_arcs {elements : List k.packing.Element}
    (arcs : ∀ e ∈ elements, k.packing.isFinalEntry payload 0 e = false) :
    Store.terminated k.packing payload elements = elements ++ [k.stop payload] := by
  have ended : elements.getLast?.any
      (k.packing.isFinalEntry payload (stateAt elements.length - 1)) = false := by
    cases last : elements.getLast? with
    | none => rfl
    | some e =>
      rw [Option.any_some, Store.isFinalEntry_eq (k.uniform payload)]
      exact arcs e (List.mem_of_getLast? last)
  unfold Store.terminated
  simp only [ended]
  rw [pack_of_string dropped]
  exact congrArg (elements ++ [·]) (pack_of_string dropped 0 _).symm

/-- Whether or not the end is among the elements makes no difference. -/
theorem ofElements_concat_stop {width : OffsetWidth} {elements : List k.packing.Element}
    (arcs : ∀ e ∈ elements, k.packing.isFinalEntry payload 0 e = false) :
    Store.ofElements k.packing width payload (elements ++ [k.stop payload])
      = Store.ofElements k.packing width payload elements := by
  unfold Store.ofElements
  rw [Stock.arity_of_not_keepsTarget dropped]
  unfold Store.ofGroups
  simp only [if_true, terminated_concat_stop, terminated_of_arcs dropped arcs]

theorem exists_ofElements_of_string {width : OffsetWidth} (elements : List k.packing.Element) :
    ∃ store, Store.ofElements k.packing width payload elements = .ok store := by
  unfold Store.ofElements
  rw [Stock.arity_of_not_keepsTarget dropped]
  unfold Store.ofGroups
  simp [Nat.mod_one]

/-! ## The rows of a line -/

/-- The entries of a view packed as a string, in terms of its states. -/
theorem rowsOf_of_string (v : View) : Store.rowsOf k.packing payload v
    = v.machine.states.map fun state =>
      ((if state.isFinal then [Arc.superfinal state.final] else []) ++ state.arcs).map
        (k.packing.pack payload 0) := by
  have alike (s : StateId) : k.packing.pack payload s = k.packing.pack payload 0 := by
    funext arc
    rw [pack_of_string dropped, pack_of_string dropped]
  unfold Store.rowsOf View.machine
  rw [List.map_map]
  refine List.map_congr_left fun s _ => ?_
  unfold Packing.packState
  rw [alike s]
  rfl

/-- Every state of a line has one entry, and the last one has the end. -/
theorem rowsOf_line {steps : List WeightedLabel} (small : steps.length < 2147483647) :
    Store.rowsOf k.packing payload (Machine.line steps Weight.one).view
      = (k.spelled payload steps).map fun e => [e] := by
  have states : (Machine.line steps Weight.one).numStates ≤ 2147483647 := by
    rw [Machine.numStates_line]
    omega
  rw [rowsOf_of_string dropped, Machine.machine_view states]
  have each (step : WeightedLabel) (i : Nat) : k.packing.pack payload 0 (step.arcFrom i)
      = k.ofStep payload step := pack_of_string dropped 0 _
  have passed (arcs : List Arc) : State.isFinal ⟨Weight.zero, arcs⟩ = false := by rfl
  have last : State.isFinal ⟨Weight.one, []⟩ = true := by rfl
  have front : (steps.zipIdx.map fun numbered => [k.ofStep payload numbered.1])
      = steps.map fun step => [k.ofStep payload step] := by
    conv_rhs => rw [← List.zipIdx_map_fst 0 steps, List.map_map]
    rfl
  unfold Machine.line Machine.lineStates Stock.spelled
  simp only [List.map_append, List.map_map, Function.comp_def, passed, each, last, List.map_cons,
    List.map_nil, List.nil_append, List.append_nil, if_true, Bool.false_eq_true, if_false, front]
  rfl

end Elements

/-! ## Packing a line -/

section Line

variable {k : Stock} {payload : k.packing.Payload} {width : OffsetWidth} {algebra : Algebra}
  {steps : List WeightedLabel} (dropped : k.keepsTarget = false) (spells : k.Spells steps)
  (small : steps.length < 2147483647)

include spells in
/-- A line has the traits that packings of strings demand. -/
theorem checkSource_line :
    Compact.checkSource k.packing (Machine.line steps Weight.one).view = .ok () := by
  refine Compact.checkSource_view_iff.2 fun t verdict said => ?_
  rcases Stock.says_required said with ⟨_, rfl, rfl⟩ | ⟨free, rfl, rfl⟩ | ⟨_, rfl, rfl⟩
  · exact Machine.holds_acceptor_line steps Weight.one
  · exact Machine.holds_weighted_line (spells.free free)
  · exact Machine.holds_string_line (by decide)

include dropped small in
theorem fits_line : (Machine.line steps Weight.one).view.Fits k.packing width := by
  rw [View.fits_iff_of_fixed (Stock.arity_of_not_keepsTarget dropped),
    ← Store.map_length_rowsOf k.packing.initial, rowsOf_line dropped small, List.map_map]
  intro count member
  obtain ⟨e, _, rfl⟩ := List.mem_map.1 member
  rfl

include dropped spells small in
theorem exists_ofView?_line : ∃ d : Compact (k.format algebra width),
    Compact.ofView? payload (Machine.line steps Weight.one).view = .ok d :=
  Compact.ofView?_of_fits (F := k.format algebra width) payload (checkSource_line spells)
    (fits_line dropped small)

include spells in
theorem isFinalEntry_of_mem_ofStep {e : k.packing.Element}
    (member : e ∈ steps.map (k.ofStep payload)) : k.packing.isFinalEntry payload 0 e = false := by
  obtain ⟨step, listed, rfl⟩ := List.mem_map.1 member
  unfold Stock.ofStep
  rw [Stock.isFinalEntry_pack]
  exact beq_eq_false_iff_ne.2 (spells.plain step listed)

include spells in
theorem ilabel_ne_of_mem_arcs_line (s : StateId) :
    ∀ a ∈ (Machine.line steps Weight.one).view.arcs s, a.ilabel ≠ noLabel := by
  refine Machine.forall_arcs_view (fun state member a arc => ?_) s
  rcases Machine.cases_of_mem_lineStates member with ⟨step, listed, i, rfl⟩ | rfl
  · rw [List.mem_singleton.1 arc]
    exact spells.plain step listed
  · cases arc

theorem eq_map_singleton {α : Type} {rows : List (List α)}
    (single : ∀ row ∈ rows, row.length = 1) : rows = rows.flatten.map fun a => [a] := by
  induction rows with
  | nil => rfl
  | cons row rows ih =>
    rw [List.forall_mem_cons] at single
    obtain ⟨only, rfl⟩ := List.length_eq_one_iff.1 single.1
    rw [List.flatten_cons, List.map_append, ← ih single.2]
    rfl

include dropped spells in
/-- Steps and an end make one row each. -/
theorem holds_of_steps {store : Store k.packing width}
    (made : Store.ofElements k.packing width payload (steps.map (k.ofStep payload)) = .ok store) :
    store.Holds ((k.spelled payload steps).map fun e => [e]) := by
  obtain ⟨rows, holds, _, single, flat⟩ :=
    Store.holds_of_string (Stock.arity_of_not_keepsTarget dropped) made
  have arcs : ∀ e ∈ steps.map (k.ofStep payload), k.packing.isFinalEntry payload 0 e = false :=
    fun _ => isFinalEntry_of_mem_ofStep spells
  rw [terminated_of_arcs dropped arcs] at flat
  rwa [eq_map_singleton single, flat] at holds

include dropped spells small in
/-- The elements of a string make the store that the line is packed in. -/
theorem eq_of_ofView_line {gathered packed : Store k.packing width}
    (made : Store.ofElements k.packing width payload (steps.map (k.ofStep payload))
      = .ok gathered)
    (made_packed : Store.ofView k.packing width payload (Machine.line steps Weight.one).view
      = .ok packed) : gathered = packed := by
  have holds := holds_of_steps dropped spells made
  have holds_packed := (Store.holds_of_ofView made_packed).1
  rw [rowsOf_line dropped small] at holds_packed
  have start : gathered.start = packed.start := by
    rw [Store.start_of_ofElements made, (Store.holds_of_ofView made_packed).2.1, holds.numStates]
    simp [Store.firstState, Machine.view, Machine.line]
  have same := Store.BuiltPlain.eq_of_holds (.gathered made)
    (.packed made_packed fun s _ => ilabel_ne_of_mem_arcs_line spells s) holds holds_packed
  rw [same, start]

end Line

/-! ## Decoding a line -/

section Decoding

variable {k : Stock} {algebra : Algebra} {width : OffsetWidth}
  {c : Compact (k.format algebra width)} {steps : List WeightedLabel} {step : WeightedLabel}
  {s : StateId} (dropped : k.keepsTarget = false)
include dropped

/-- What a step is restored to, in whichever state. -/
theorem unpack_ofStep (payload : k.packing.Payload) (s : StateId) (fields : Fields)
    (step : WeightedLabel) : k.packing.unpack payload s (k.ofStep payload step) fields
      = k.restored s fields ⟨step.label, step.label, step.weight, 0⟩ := by
  rw [← Stock.unpack_pack k payload, pack_of_string dropped]

/-- A state that keeps the element of a step has one arc, to the following state. -/
theorem state_of_step (window : c.window s = [k.ofStep c.payload step])
    (plain : step.label ≠ noLabel)
    (free : k.keepsWeights = false → step.weight = Weight.one) :
    State.mk (c.final s) (c.arcs s)
      = ⟨Weight.zero, [⟨step.label, step.label, step.weight, s + 1⟩]⟩ := by
  have weight : (if k.keepsWeights = true then step.weight else Weight.one) = step.weight := by
    by_cases kept : k.keepsWeights = true
    · rw [if_pos kept]
    · rw [if_neg kept, free (Bool.not_eq_true _ ▸ kept)]
  have arc : k.packing.isFinalEntry c.payload 0 (k.ofStep c.payload step) = false := by
    unfold Stock.ofStep
    rw [Stock.isFinalEntry_pack]
    exact beq_eq_false_iff_ne.2 plain
  have final : c.final s = Weight.zero := by
    unfold Compact.final
    rw [window]
    simp only [List.head?_cons]
    rw [unpack_ofStep dropped]
    exact if_neg plain
  have arcs : c.arcs s = [⟨step.label, step.label, step.weight, s + 1⟩] := by
    rw [Compact.arcs_eq, Packing.arcEntries, Compact.startsFinal_eq (k.uniform c.payload), window]
    simp [arc, unpack_ofStep dropped, Stock.restored, dropped, weight, Fields.all,
      Packing.followingState, plain]
  rw [final, arcs]

/-- A state that keeps the end of a string is final. -/
theorem state_of_stop (window : c.window s = [k.stop c.payload]) :
    State.mk (c.final s) (c.arcs s) = ⟨Weight.one, []⟩ := by
  have restored : k.packing.unpack c.payload s (k.stop c.payload) Fields.inputAndWeight
      = k.restored s Fields.inputAndWeight (Arc.superfinal Weight.one) := by
    unfold Stock.stop
    rw [pack_of_string dropped, ← pack_of_string dropped s, Stock.unpack_pack]
  have final : c.final s = Weight.one := by
    unfold Compact.final
    rw [window]
    simp only [List.head?_cons]
    rw [restored]
    simp [Stock.restored, Arc.superfinal]
  have arcs : c.arcs s = [] := by
    rw [Compact.arcs_eq, Packing.arcEntries, Compact.startsFinal_eq (k.uniform c.payload), window]
    simp [isFinalEntry_stop]
  rw [final, arcs]

omit dropped in
theorem window_of_single {elements : List k.packing.Element}
    (holds : c.store.Holds (elements.map fun e => [e])) (small : elements.length ≤ 2147483647)
    {i : Nat} {e : k.packing.Element} (there : elements[i]? = some e) :
    c.window (stateAt i) = [e] := by
  obtain ⟨below, rfl⟩ := List.getElem?_eq_some_iff.1 there
  have inside : i < (elements.map fun e => [e]).length := by rwa [List.length_map]
  unfold Compact.window
  rw [Store.window_of_position (position?_stateAt (by omega)) (by rwa [holds.numStates]),
    holds.windowAt inside, List.getElem_map]

/-- The elements of a string show every state of the line. -/
theorem state_of_steps (spells : k.Spells steps) (small : steps.length < 2147483647)
    (holds : c.store.Holds ((k.spelled c.payload steps).map fun e => [e]))
    {i : Nat} {state : State}
    (there : (Machine.lineStates steps Weight.one)[i]? = some state) :
    State.mk (c.final (stateAt i)) (c.arcs (stateAt i)) = state := by
  have number : (k.spelled c.payload steps).length ≤ 2147483647 := by
    rw [length_spelled]
    omega
  rcases Machine.cases_of_lineStates there with ⟨step, listed, rfl⟩ | ⟨rfl, rfl⟩
  · have member := List.mem_of_getElem? listed
    have window := window_of_single holds number (getElem?_spelled listed)
    rw [state_of_step dropped window (spells.plain step member)
      fun free => spells.free free step member, ← stateAt_succ]
    rfl
  · have window := window_of_single holds number (getElem?_length_spelled c.payload steps)
    exact state_of_stop dropped window

theorem machine_of_steps (spells : k.Spells steps) (small : steps.length < 2147483647)
    (holds : c.store.Holds ((k.spelled c.payload steps).map fun e => [e]))
    (symbols : c.symbols = SymbolPair.none) (start : c.store.start = 0) :
    c.view.machine = Machine.line steps Weight.one := by
  have number : c.store.numStates = steps.length + 1 := by simp [holds.numStates]
  have states : (c.view.states.map fun s => State.mk (c.final s) (c.arcs s))
      = Machine.lineStates steps Weight.one := by
    refine List.ext_getElem ?_ fun i here there => ?_
    · simp [Machine.lineStates, Compact.view, number]
    · rw [List.getElem_map]
      simp only [View.states, List.getElem_map, List.getElem_range]
      exact state_of_steps dropped spells small holds (List.getElem?_eq_getElem there)
  have same : c.view.machine = ⟨c.store.start, _, c.symbols⟩ := rfl
  rw [same, start, symbols]
  exact congrArg (Machine.mk 0 · SymbolPair.none) states

end Decoding

/-! ## Reading labels off a line -/

theorem View.shown_of_machine_eq {v : View} {m : Machine} (same : v.machine = m) {i : Nat}
    {state : State} (there : m.states[i]? = some state) :
    v.final (stateAt i) = state.final ∧ v.arcs (stateAt i) = state.arcs := by
  rw [← same] at there
  obtain ⟨below, rfl⟩ := List.getElem?_eq_some_iff.1 there
  simp [View.machine, View.states]

/-- By induction on the steps that are left: a walk takes as many turns as there are states. -/
theorem View.labelsFrom_line {v : View} {front back : List WeightedLabel} {final : Weight}
    (same : v.machine = Machine.line (front ++ back) final) (solid : final.isZero = false) :
    v.labelsFrom (back.length + 1) (stateAt front.length)
      = some (back.map WeightedLabel.label) := by
  induction back generalizing front with
  | nil =>
    have last := Machine.getElem?_length_lineStates (front ++ []) final
    rw [List.append_nil] at same last
    obtain ⟨weight, arcs⟩ := View.shown_of_machine_eq same last
    simp [View.labelsFrom, arcs, View.isFinal, weight, solid]
  | cons step back ih =>
    have here : (front ++ step :: back)[front.length]? = some step := by simp
    obtain ⟨weight, arcs⟩ :=
      View.shown_of_machine_eq same (Machine.getElem?_lineStates here)
    have passed : Weight.zero.isZero = true := by decide
    rw [List.append_cons] at same
    have rest := ih same
    rw [List.length_append, List.length_singleton] at rest
    rw [List.length_cons, View.labelsFrom, arcs]
    simp [View.isFinal, weight, passed, WeightedLabel.arcFrom, rest]

/-! ## From labels to strings -/

/-- The packed machine has the store in which a machine is packed, shows that machine, and gives
back the labels along it. -/
structure Compact.IsString {F : Format} (c : Compact F) (m : Machine) (labels : List Label) :
    Prop where
  packed : ∃ d : Compact F, ofView? c.payload m.view = .ok d ∧ d.store = c.store
  machine : c.view.machine = m
  labels : c.view.stringLabels? = some labels

/-- Steps make a string, with or without the end. -/
theorem exists_isString {k : Stock} (dropped : k.keepsTarget = false) (algebra : Algebra)
    (width : OffsetWidth) (payload : k.packing.Payload) {steps : List WeightedLabel}
    (spells : k.Spells steps) : ∃ c : Compact (k.format algebra width),
      Compact.ofElements? payload (steps.map (k.ofStep payload)) = .ok c
        ∧ Compact.ofElements? payload (steps.map (k.ofStep payload) ++ [k.stop payload]) = .ok c
        ∧ c.view.numStates = steps.length + 1
        ∧ (steps.length < 2147483647 →
          c.IsString (Machine.line steps Weight.one) (steps.map WeightedLabel.label)) := by
  let elements := steps.map (k.ofStep payload)
  obtain ⟨store, made⟩ : ∃ store : Store k.packing width,
      Store.ofElements k.packing width payload elements = .ok store :=
    exists_ofElements_of_string dropped elements
  let c : Compact (k.format algebra width) := Compact.assemble payload store
    (k.packing.required ||| TraitWord.expanded) SymbolPair.none
  have arcs : ∀ e ∈ elements, k.packing.isFinalEntry payload 0 e = false :=
    fun _ => isFinalEntry_of_mem_ofStep spells
  have ended := (ofElements_concat_stop dropped arcs).trans made
  have holds := holds_of_steps dropped spells made
  have number : store.numStates = steps.length + 1 := by simp [holds.numStates]
  refine ⟨c, bind_eq_ok_iff.2 ⟨store, made, rfl⟩, bind_eq_ok_iff.2 ⟨store, ended, rfl⟩, number,
    fun small => ?_⟩
  have start : store.start = 0 := by
    rw [Store.start_of_ofElements made, number]
    rfl
  obtain ⟨d, packed⟩ : ∃ d : Compact (k.format algebra width),
      Compact.ofView? payload (Machine.line steps Weight.one).view = .ok d :=
    exists_ofView?_line dropped spells small
  obtain ⟨_, other, stored, rfl⟩ := Compact.ofView?_eq_ok_iff.1 packed
  have machine : c.view.machine = Machine.line steps Weight.one :=
    machine_of_steps dropped spells small holds rfl start
  refine ⟨⟨_, packed, (eq_of_ofView_line dropped spells small made stored).symm⟩, machine, ?_⟩
  have labels : c.view.labelsFrom (steps.length + 1) (stateAt ([] : List WeightedLabel).length)
      = some (steps.map WeightedLabel.label) := View.labelsFrom_line machine (by decide)
  unfold View.stringLabels?
  change (if store.start = noState then none else View.labelsFrom _ store.numStates store.start)
    = _
  rw [start, number, if_neg (by decide)]
  exact labels

/-- Labels other than the reserved one make a string, whether or not the end is listed behind them:
it has a state for each label and one more, its store is the one in which the linear machine over
the labels is packed, and it shows that machine and gives back the labels, as long as there are
numbers for all of its states. Labels with weights make the line that carries these weights, with
the final weight `one`. -/
theorem strings_of_labels (algebra : Algebra) (width : OffsetWidth) :
    (∀ labels : List Label, noLabel ∉ labels →
      ∃ c : Compact (Stock.string.format algebra width),
        Compact.ofElements? () labels = .ok c
          ∧ Compact.ofElements? () (labels ++ [noLabel]) = .ok c
          ∧ c.view.numStates = labels.length + 1
          ∧ (labels.length < 2147483647 → c.IsString (Machine.linear labels Weight.one) labels))
      ∧ ∀ steps : List WeightedLabel, (∀ step ∈ steps, step.label ≠ noLabel) →
        ∃ c : Compact (Stock.weightedString.format algebra width),
          Compact.ofElements? () steps = .ok c
            ∧ Compact.ofElements? () (steps ++ [WeightedLabel.mk noLabel Weight.one]) = .ok c
            ∧ c.view.numStates = steps.length + 1
            ∧ (steps.length < 2147483647 →
              c.IsString (Machine.line steps Weight.one) (steps.map WeightedLabel.label)) := by
  constructor
  · intro labels plain
    let steps := labels.map fun label => WeightedLabel.mk label Weight.one
    have spells : Stock.string.Spells steps := by
      constructor
      · intro step listed
        obtain ⟨label, member, rfl⟩ := List.mem_map.1 listed
        exact fun reserved => plain (reserved ▸ member)
      · intro _ step listed
        obtain ⟨label, _, rfl⟩ := List.mem_map.1 listed
        rfl
    have elements : steps.map (Stock.string.ofStep ()) = labels := by
      rw [List.map_map]
      exact List.map_id labels
    have again : steps.map WeightedLabel.label = labels := by
      rw [List.map_map]
      exact List.map_id labels
    have number : steps.length = labels.length := List.length_map _
    have string := exists_isString (k := .string) rfl algebra width () spells
    rw [elements, again, number, ← Machine.linear_eq_line] at string
    exact string
  · intro steps plain
    have spells : Stock.weightedString.Spells steps := ⟨plain, fun kept => by cases kept⟩
    have elements : steps.map (Stock.weightedString.ofStep ()) = steps := List.map_id steps
    have string := exists_isString (k := .weightedString) rfl algebra width () spells
    rw [elements] at string
    exact string

/-- The string without labels, one of two labels, and one whose weight is no number. -/
theorem strings_of_labels_short :
    (∃ c : Compact strings, Compact.ofElements? () [] = .ok c
        ∧ c.IsString (Machine.linear [] Weight.one) [])
      ∧ (∃ c : Compact strings, Compact.ofElements? () [(7 : Label), (8 : Label)] = .ok c
        ∧ Compact.ofElements? () [(7 : Label), (8 : Label), noLabel] = .ok c
        ∧ c.IsString (Machine.linear [7, 8] Weight.one) [7, 8])
      ∧ ∃ c : Compact weightedStrings,
        Compact.ofElements? () [WeightedLabel.mk 3 Weight.bad] = .ok c
          ∧ c.IsString (Machine.line [⟨3, Weight.bad⟩] Weight.one) [3] := by
  obtain ⟨plain, weighted⟩ := strings_of_labels .tropical .four
  obtain ⟨none_, made_none, _, _, empty⟩ := plain [] (by decide)
  obtain ⟨two, made_two, ended, _, labels⟩ := plain [7, 8] (by decide)
  obtain ⟨one, made_one, _, _, label⟩ := weighted [⟨3, Weight.bad⟩] (by decide)
  exact ⟨⟨none_, made_none, empty (by decide)⟩, ⟨two, made_two, ended, labels (by decide)⟩,
    one, made_one, label (by decide)⟩

end Transducer
