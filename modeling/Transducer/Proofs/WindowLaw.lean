import Transducer.Proofs.ExactCounts
import Transducer.Proofs.Preservation
import Transducer.Proofs.StoreInvariant
/-!
# The window law

In a packed machine the arcs of a state and its final weight, if it has one, should be as many as
the entries of its window. The number of arcs goes by the label of the first entry and finality by
its weight, so the law fails at a state exactly if its window starts hollow, with a final entry of
weight `zero` (`windowLaw_iff_hollow`). Machines packed from views without arcs of the reserved
label obey the law, and so do all that are gathered from marked elements. A string obeys it
exactly if none of its elements is hollow (`windowLaw_of_built`): the elements of a string are
not looked at, and one that is hollow takes up a state to which it gives neither an arc nor a final
weight (`not_windowLaw_hollowString`).
-/
namespace Transducer

namespace Compact

variable {F : Format} {c : Compact F}

/-- The arcs of every state and its final weight are as many as its entries. -/
def WindowLaw (c : Compact F) : Prop :=
  ∀ s, c.view.numArcs s + (c.view.isFinal s).toNat = (c.window s).length

/-- The machine was made from elements, or given them later. -/
def Gathers (c : Compact F) (elements : List F.packing.Element) : Prop :=
  (∃ payload, ofElements? payload elements = .ok c) ∨ ∃ before, setElements before elements = .ok c

/-- Either way the store is that of the elements and the traits are those of the packing. -/
theorem Gathers.frame {elements : List F.packing.Element} (gathers : c.Gathers elements) :
    Store.ofElements F.packing F.width c.payload elements = .ok c.store
      ∧ c.properties = F.packing.required ||| TraitWord.expanded := by
  rcases gathers with ⟨payload, made⟩ | ⟨before, made⟩
  · obtain ⟨stored, same, properties, _⟩ := frame_of_ofElements made
    rw [same]
    exact ⟨stored, properties⟩
  · obtain ⟨stored, same, properties, _⟩ := frame_of_setElements made
    rw [same]
    exact ⟨stored, properties⟩

/-- The law fails where a window starts with a final entry of weight `zero`. -/
theorem windowLaw_iff_hollow (uniform : F.packing.Uniform c.payload) :
    c.WindowLaw ↔ ∀ s, (c.window s).head?.any (F.packing.isHollow c.payload) = false := by
  refine forall_congr' fun s => ?_
  have entries := length_entries_view uniform s
  rw [View.length_entries] at entries
  rw [← entries]
  cases (c.window s).head?.any (F.packing.isHollow c.payload) with
  | false => exact iff_of_true rfl rfl
  | true =>
    refine iff_of_false (fun equal => ?_) Bool.noConfusion
    rw [Bool.toNat_true] at equal
    omega

/-- Fronts of windows are fronts of rows. -/
theorem front_window {rows : List (List F.packing.Element)} (holds : c.store.Holds rows)
    {p : F.packing.Element → Bool} (fronts : ∀ row ∈ rows, row.head?.any p = false) (s : StateId) :
    (c.window s).head?.any p = false := by
  rcases window_mem_or_eq_nil holds s with row | empty
  · exact fronts _ row
  · rw [empty]
    rfl

/-- Fronts of rows are fronts of windows, when there are numbers for all of them. -/
theorem front_row {rows : List (List F.packing.Element)} (holds : c.store.Holds rows)
    (small : c.store.numStates ≤ 2147483647) {p : F.packing.Element → Bool}
    (fronts : ∀ s, (c.window s).head?.any p = false) : ∀ row ∈ rows, row.head?.any p = false := by
  intro row here
  rw [← map_window_states holds small] at here
  obtain ⟨s, _, rfl⟩ := List.mem_map.1 here
  exact fronts s

variable {k : Stock} {algebra : Algebra} {width : OffsetWidth} {payload : k.packing.Payload}
  {c : Compact (k.format algebra width)}

theorem windowLaw_of_ofView {v : View} (made : ofView? payload v = .ok c)
    (plain : ∀ s ∈ v.states, ∀ a ∈ v.arcs s, a.ilabel ≠ noLabel) : c.WindowLaw := by
  have same : c.payload = payload := (frame_of_ofView made).1
  rw [windowLaw_iff_hollow (k.uniform c.payload), same]
  intro s
  by_cases inside : v.InRange s
  · rw [window_of_inRange made inside]
    exact head_of_packState payload fun _ a first =>
      plain s (View.mem_states_of_inRange inside) a (List.mem_of_head? first)
  · rw [window_of_not_inRange fun there => inside ((inRange_of_view made).1 there)]
    rfl

end Compact

/-- Packed machines obey the window law if they are packed from views whose states can be numbered
and whose arcs do not have the reserved label, or gathered from elements of which, in a string, none
is hollow. Strings with a hollow element break it. -/
theorem windowLaw_of_built (k : Stock) (algebra : Algebra) (width : OffsetWidth)
    (c : Compact (k.format algebra width)) :
    (∀ payload v, v.numStates ≤ 2147483647 → Compact.ofView? payload v = .ok c →
        (∀ s ∈ v.states, ∀ a ∈ v.arcs s, a.ilabel ≠ noLabel) → c.WindowLaw)
      ∧ ∀ elements, c.Gathers elements →
        ((k.packing.arity.isIndexed = false →
            ∀ e ∈ elements, k.packing.isHollow c.payload e = false) → c.WindowLaw)
          ∧ (c.store.numStates ≤ 2147483647 → c.WindowLaw →
            k.packing.arity.isIndexed = false →
              ∀ e ∈ elements, k.packing.isHollow c.payload e = false) := by
  have law := Compact.windowLaw_iff_hollow (F := k.format algebra width) (k.uniform c.payload)
  constructor
  · intro payload v _ made plain
    exact Compact.windowLaw_of_ofView made plain
  · intro elements gathers
    obtain ⟨rows, holds, _, fronts⟩ := Store.forall_fronts_iff_of_ofElements gathers.frame.1
    constructor
    · intro solid
      exact law.2 (Compact.front_window holds (fronts.2 solid))
    · intro small obeyed
      exact fronts.1 (Compact.front_row holds small (law.1 obeyed))

/-- A packed machine, a string of one label and a machine gathered from marked elements. -/
theorem windowLaw_solidString :
    packedLine.WindowLaw ∧ solidString.WindowLaw ∧ gatheredPair.WindowLaw := by
  have packed : Compact.ofView? () (Machine.linear [1, 2] Weight.one).view = .ok packedLine := by
    cbv
  have plain : ∀ s ∈ (Machine.linear [1, 2] Weight.one).view.states,
      ∀ a ∈ (Machine.linear [1, 2] Weight.one).view.arcs s, a.ilabel ≠ noLabel := by
    have checked : ((Machine.linear [1, 2] Weight.one).view.states.all fun s =>
        ((Machine.linear [1, 2] Weight.one).view.arcs s).all fun a =>
          a.ilabel != noLabel) = true := by
      cbv
    intro s state a arc
    simpa using List.all_eq_true.1 (List.all_eq_true.1 checked s state) a arc
  have string : Compact.ofElements? (F := weightedStrings) () [WeightedLabel.mk 1 Weight.one]
      = .ok solidString := by
    rfl
  have marked : Compact.ofElements? () markedPair = .ok gatheredPair := by
    rfl
  have solid : ∀ e ∈ [WeightedLabel.mk 1 Weight.one],
      Packing.weightedString.isHollow () e = false :=
    List.forall_mem_singleton.2 rfl
  refine ⟨?_, ?_, ?_⟩
  · exact (windowLaw_of_built .acceptor .tropical .four packedLine).1 () _ (by decide) packed plain
  · exact ((windowLaw_of_built .weightedString .tropical .four solidString).2 _
      (Or.inl ⟨(), string⟩)).1 fun _ => solid
  · refine ((windowLaw_of_built .acceptor .tropical .one gatheredPair).2 _
      (Or.inl ⟨(), marked⟩)).1 fun impossible => ?_
    cases impossible

/-- A string of nothing but a hollow end has one entry and shows neither arc nor final weight. -/
theorem not_windowLaw_hollowString :
    hollowString.Gathers [WeightedLabel.mk noLabel Weight.zero] ∧ ¬ hollowString.WindowLaw := by
  have made : Compact.ofElements? (F := weightedStrings) () [WeightedLabel.mk noLabel Weight.zero]
      = .ok hollowString := by
    rfl
  refine ⟨Or.inl ⟨(), made⟩, fun law => ?_⟩
  have shown : hollowString.view.numArcs 0 + (hollowString.view.isFinal 0).toNat = 0 := by rfl
  have entries : (hollowString.window 0).length = 1 := by rfl
  have equal := law 0
  rw [shown, entries] at equal
  cases equal

end Transducer
