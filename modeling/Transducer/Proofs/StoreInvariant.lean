import Transducer.Proofs.DecodedCounts
/-!
# The invariant of stores

A store is built in three ways: from a view, from elements cut into groups, and from elements that
are gathered behind final entries. Each way has a bookkeeping of its own for the offsets, the kept
elements and the number of arcs. `Store.Regular` is what all three leave behind, as far as a reader
of the store can tell: addressing that covers the elements, windows that make up the elements in
order, a final entry nowhere but in front, and a count of the other entries. It follows from the
rows that a store holds and from their being tidy (`Holds.regular`). Main statement: every store
that a stock packing builds is regular, and a packed machine on it shows as many arcs as its windows
have other entries (`regular_of_builtPlain`).
-/
namespace Transducer

theorem Stock.isFinalEntry_pack (k : Stock) (payload : k.packing.Payload) (reader s : StateId)
    (arc : Arc) : k.packing.isFinalEntry payload reader (k.packing.pack payload s arc)
      = (arc.ilabel == noLabel) := by
  cases k <;> rfl

namespace Store

variable {P : Packing} {w : OffsetWidth} {payload : P.Payload}

/-- The ways to build a store: from a view without arcs of the reserved label, and from elements. -/
inductive BuiltPlain (payload : P.Payload) : Store P w → Prop
  | packed {v : View} {store : Store P w} (made : ofView P w payload v = .ok store)
      (plain : ∀ s ∈ v.states, ∀ a ∈ v.arcs s, a.ilabel ≠ noLabel) : BuiltPlain payload store
  | gathered {elements : List P.Element} {store : Store P w}
      (made : ofElements P w payload elements = .ok store) : BuiltPlain payload store

/-- What readers of a store rely on. -/
structure Regular (store : Store P w) (payload : P.Payload) : Prop where
  arity : store.addressing.arity = P.arity
  grouped : ∀ size, store.addressing = .grouped size →
    store.numElements = size * store.numStates
  indexed : ∀ offsets, store.addressing = .indexed offsets →
    Delimits (offsets.values.map (·.val)) store.numStates store.numElements
  windows : (List.range store.numStates).flatMap store.windowAt = store.elements.values
  marks : ∀ i < store.numStates, ∀ e ∈ (store.windowAt i).tail,
    P.isFinalEntry payload (stateAt i) e = false
  numArcs : store.numArcs = ((List.range store.numStates).map fun i =>
    (store.windowAt i).countP fun e => !P.isFinalEntry payload (stateAt i) e).sum

/-! ## Tidy rows -/

section Rows

variable {store : Store P w} {rows : List (List P.Element)}

/-- Tidy rows that a packing reads alike in every state make a store regular. -/
theorem Holds.regular (holds : store.Holds rows) (uniform : P.Uniform payload)
    (tidy : P.Tidy payload rows store.numArcs) : store.Regular payload where
  arity := holds.arity
  grouped _ := holds.numElements_of_grouped
  indexed _ := holds.delimits_of_indexed
  windows := by rw [List.flatMap_def, holds.map_windowAt, holds.elements]
  marks i below e behind := by
    rw [isFinalEntry_eq uniform]
    exact tidy.tails _ (holds.windowAt_mem below) e behind
  numArcs := by
    have alike : ∀ i, (store.windowAt i).countP (fun e => !P.isFinalEntry payload (stateAt i) e)
        = (store.windowAt i).countP fun e => !P.isFinalEntry payload 0 e := by
      intro i
      simp only [isFinalEntry_eq uniform (stateAt i)]
    rw [List.map_congr_left fun i _ => alike i, tidy.numArcs, List.countP_flatten,
      ← holds.map_windowAt, List.map_map]
    rfl

end Rows

/-! ## Rows of the stock packings -/

variable {k : Stock} {width : OffsetWidth}

/-- Behind the front of the entries of a state there are only arcs. -/
theorem isFinalEntry_of_mem_tail_packState {payload : k.packing.Payload} {v : View} {s : StateId}
    (plain : ∀ a ∈ v.arcs s, a.ilabel ≠ noLabel) {e : k.packing.Element}
    (behind : e ∈ (k.packing.packState payload v s).tail) :
    k.packing.isFinalEntry payload 0 e = false := by
  unfold Packing.packState at behind
  rw [← List.map_tail] at behind
  obtain ⟨a, member, rfl⟩ := List.mem_map.1 behind
  have arc : a ∈ v.arcs s := by
    unfold View.entries at member
    split at member
    · exact member
    · exact List.mem_of_mem_tail member
  rw [Stock.isFinalEntry_pack]
  exact beq_eq_false_iff_ne.2 (plain a arc)

theorem countP_packState {payload : k.packing.Payload} {v : View} {s : StateId}
    (plain : ∀ a ∈ v.arcs s, a.ilabel ≠ noLabel) :
    ((k.packing.packState payload v s).countP fun e => !k.packing.isFinalEntry payload 0 e)
      = v.numArcs s := by
  have arcs : (v.arcs s).countP (fun a => !(a.ilabel == noLabel)) = (v.arcs s).length := by
    rw [List.countP_eq_length]
    intro a arc
    rw [beq_eq_false_iff_ne.2 (plain a arc)]
    rfl
  have final : (if v.isFinal s then [Arc.superfinal (v.final s)] else []).countP
      (fun a => !(a.ilabel == noLabel)) = 0 := by
    split <;> rfl
  unfold Packing.packState View.entries View.numArcs
  simp only [List.countP_map, Function.comp_def, Stock.isFinalEntry_pack]
  rw [List.countP_append, final, arcs, Nat.zero_add]

/-- However a stock packing builds a store, it holds tidy rows. -/
theorem BuiltPlain.exists_tidy {payload : k.packing.Payload} {store : Store k.packing width}
    (built : store.BuiltPlain payload) :
    ∃ rows, store.Holds rows ∧ k.packing.Tidy payload rows store.numArcs := by
  cases built with
  | gathered made =>
    obtain ⟨rows, holds, tidy, _⟩ := forall_fronts_iff_of_ofElements made
    exact ⟨rows, holds, tidy⟩
  | @packed v _ made plain =>
    obtain ⟨holds, _, numArcs⟩ := holds_of_ofView made
    refine ⟨rowsOf k.packing payload v, holds, ?_, ?_⟩
    · intro row here e behind
      obtain ⟨s, state, rfl⟩ := List.mem_map.1 here
      exact isFinalEntry_of_mem_tail_packState (plain s state) behind
    · rw [numArcs, View.totalArcs, View.total_eq_sum, rowsOf, List.countP_flatten, List.map_map]
      exact congrArg List.sum
        (List.map_congr_left fun s state => (countP_packState (plain s state)).symm)

theorem BuiltPlain.owned {payload : P.Payload} {store : Store P w}
    (built : store.BuiltPlain payload) : store.Owned := by
  cases built with
  | packed made => exact owned_of_ofView made
  | gathered made => exact owned_of_ofElements made

theorem Holds.unique {store : Store P w} {rows others : List (List P.Element)}
    (holds : store.Holds rows) (holds_others : store.Holds others) : rows = others := by
  rw [← holds.map_windowAt, ← holds_others.map_windowAt]

/-- Stores of a stock packing that hold the same rows differ in no more than their starts, in
whichever way each of them was built. -/
theorem BuiltPlain.eq_of_holds {payload : k.packing.Payload} {one other : Store k.packing width}
    (built : one.BuiltPlain payload) (built_other : other.BuiltPlain payload)
    {rows : List (List k.packing.Element)} (holds : one.Holds rows)
    (holds_other : other.Holds rows) : one = { other with start := one.start } := by
  obtain ⟨found, holds_found, tidy⟩ := built.exists_tidy
  obtain ⟨others, holds_others, tidy_other⟩ := built_other.exists_tidy
  cases holds.unique holds_found
  cases holds_other.unique holds_others
  exact holds.eq_of_owned holds_other built.owned built_other.owned
    (tidy.numArcs.trans tidy_other.numArcs.symm)

end Store

namespace Compact

variable {F : Format} {c : Compact F} {rows : List (List F.packing.Element)}

/-- The window of a state is a row or, out of range, empty. -/
theorem window_mem_or_eq_nil (holds : c.store.Holds rows) (s : StateId) :
    c.window s ∈ rows ∨ c.window s = [] := by
  unfold window Store.window
  split
  · split
    · rename_i below
      exact Or.inl (holds.windowAt_mem below)
    · exact Or.inr rfl
  · exact Or.inr rfl

/-- In tidy rows only the front of a window may be a final entry. -/
theorem isFinalEntry_of_mem_tail_window (holds : c.store.Holds rows) {numArcs : Nat}
    (tidy : F.packing.Tidy c.payload rows numArcs) {s : StateId} {e : F.packing.Element}
    (behind : e ∈ (c.window s).tail) : F.packing.isFinalEntry c.payload 0 e = false := by
  rcases window_mem_or_eq_nil holds s with row | empty
  · exact tidy.tails _ row e behind
  · rw [empty] at behind
    cases behind

end Compact

/-- Every store that a stock packing builds is regular, and a packed machine on it shows in each
state as many arcs as there are entries other than a final one. The windows of its states are the
elements, and its arcs are those counted, when there are numbers for all of its states. -/
theorem regular_of_builtPlain (k : Stock) (algebra : Algebra) (width : OffsetWidth)
    (c : Compact (k.format algebra width)) (built : c.store.BuiltPlain c.payload) :
    c.store.Regular c.payload
      ∧ (∀ s, (∀ e ∈ (c.window s).tail, k.packing.isFinalEntry c.payload s e = false)
        ∧ c.view.numArcs s
          = (c.window s).countP fun e => !k.packing.isFinalEntry c.payload s e)
      ∧ (c.store.numStates ≤ 2147483647 →
        c.view.states.flatMap c.window = c.store.elements.values
          ∧ (c.view.states.map c.view.numArcs).sum = c.store.numArcs) := by
  obtain ⟨rows, holds, tidy⟩ := built.exists_tidy
  have uniform := k.uniform c.payload
  refine ⟨holds.regular uniform tidy, fun s => ?_, fun small => ?_⟩
  · have tail : ∀ e ∈ (c.window s).tail, k.packing.isFinalEntry c.payload 0 e = false :=
      fun _ => Compact.isFinalEntry_of_mem_tail_window holds tidy
    simp only [Store.isFinalEntry_eq uniform s]
    exact ⟨tail, Compact.numArcs_view_eq_countP uniform tail⟩
  · have shown := Compact.map_window_states holds small
    rw [List.flatMap_def, shown, ← View.total_eq_sum]
    exact ⟨holds.elements.symm, Compact.totalArcs_of_tidy uniform tidy shown⟩

/-- An arc between two states; the first one opens with a final entry of weight `zero`. -/
def markedPair : List WeightedLabelState :=
  [⟨noLabel, Weight.zero, noState⟩, ⟨1, Weight.one, 1⟩, ⟨noLabel, Weight.one, noState⟩]

def gatheredPair : Compact (Stock.acceptor.format .tropical .one) :=
  Compact.ofElements (F := Stock.acceptor.format .tropical .one) () markedPair

theorem regular_gatheredPair :
    gatheredPair.store.Regular ()
      ∧ gatheredPair.view.states.flatMap gatheredPair.window = markedPair.tail
      ∧ (gatheredPair.view.states.map gatheredPair.view.numArcs).sum = 1 := by
  have made : Store.ofElements Packing.acceptor .one () markedPair = .ok gatheredPair.store := by
    rfl
  obtain ⟨regular, _, shown⟩ := regular_of_builtPlain .acceptor .tropical .one gatheredPair
    (.gathered made)
  have numStates : gatheredPair.store.numStates = 2 := by rfl
  obtain ⟨windows, numArcs⟩ := shown (by rw [numStates]; decide)
  exact ⟨regular, windows.trans rfl, numArcs.trans rfl⟩

end Transducer
