import Transducer.Proofs.DeclaredTraits
import Transducer.Proofs.StoredStart
/-!
# The order of the labels

Two traits promise that the arcs of every state ascend by their labels, one trait for each side of
the arcs. Scans of a state rely on such a promise: they stop early, or halve. The survey compares
neighbours only, which is enough as the order is transitive (`Machine.holds_sorted_iff`). Packing
keeps the labels of every state in their order (`Compact.labels_of_ofView`), and a packed machine
copies what its source declares, so what it declares of their order is true of every state. Main
statement: along any chain of packings from a machine without the reserved label, every view shows
the labels of that machine and is right about their order (`View.PackedFrom.labelled`).
-/
namespace Transducer

open TraitWord

namespace Arc

/-- The label on one side of an arc. -/
def label (output : Bool) (a : Arc) : Label := if output then a.olabel else a.ilabel

@[simp] theorem label_false (a : Arc) : a.label false = a.ilabel := rfl

@[simp] theorem label_true (a : Arc) : a.label true = a.olabel := rfl

end Arc

/-- The trait of ascending by the labels on one side. -/
def Trait.sorted (output : Bool) : Trait := if output then .outputSorted else .inputSorted

namespace Machine

/-- Neighbours that do not fall are enough for the order of all. -/
theorem ascending_iff_pairwise {labels : List Label} :
    ascending labels = true ↔ labels.Pairwise (· ≤ ·) := by
  rw [← List.isChain_iff_pairwise]
  induction labels with
  | nil => simp [ascending]
  | cons first rest ih =>
    cases rest with
    | nil => simp [ascending]
    | cons second rest => simp [ascending, ih]

theorem holds_sorted_iff {m : Machine} {output : Bool} : m.holds (.sorted output) = true
    ↔ ∀ state ∈ m.states, (state.arcs.map (Arc.label output)).Pairwise (· ≤ ·) := by
  simp only [← ascending_iff_pairwise]
  cases output with
  | false => exact List.all_eq_true
  | true => exact List.all_eq_true

end Machine

namespace View

/-- The labels of a state on one side, in the order of its arcs. -/
def labels (v : View) (output : Bool) (s : StateId) : List Label :=
  (v.arcs s).map (Arc.label output)

/-- What is declared of the order of labels is true of every state. -/
def Ordered (v : View) : Prop := ∀ output, Says v.properties (.sorted output) true →
  ∀ s, (v.labels output s).Pairwise (· ≤ ·)

theorem plain_of_labels {v : View} {s : StateId} (plain : noLabel ∉ v.labels false s) :
    ∀ a ∈ v.arcs s, a.ilabel ≠ noLabel := by
  intro a member reserved
  exact plain (List.mem_map.2 ⟨a, member, reserved⟩)

end View

/-- The survey does not err on the order of labels. -/
theorem Machine.Shows.pairwise_labels {m : Machine} {v : View} (shows_ : m.Shows v)
    {output : Bool} (sorted : m.holds (.sorted output) = true) (s : StateId) :
    (v.labels output s).Pairwise (· ≤ ·) := by
  rw [holds_sorted_iff] at sorted
  unfold View.labels
  rcases shows_ s with found | ⟨_, nothing⟩
  · exact sorted _ (mem_states_of_mem_numbered found)
  · simp [nothing]

namespace View

theorem ordered_view (m : Machine) : m.view.Ordered := by
  intro output said
  exact m.shows_view.pairwise_labels ((m.says_properties _ true).1 said)

/-- What an ordered view answers about the order of labels is true, declared or found. -/
theorem Ordered.pairwise_of_test {v : View} (ordered : v.Ordered) (bare : v.Bare) {mask : UInt64}
    {output : Bool} (h : Says (v.test mask) (.sorted output) true) (s : StateId) :
    (v.labels output s).Pairwise (· ≤ ·) := by
  rcases says_of_test h with declared | found
  · exact ordered output declared s
  · exact bare.shows_machine.pairwise_labels found s

end View

/-- No stock packing demands that labels ascend. -/
theorem Stock.not_says_required_sorted (k : Stock) (output : Bool) :
    ¬ Says k.packing.required (.sorted output) true := by
  cases k <;> cases output <;> decide

namespace Compact

/-- Asking for the bit of a trait reads the verdict. -/
theorem declares_iff {F : Format} {c : Compact F} {t : Trait} :
    c.declares t = true ↔ Says c.properties t true := by
  unfold declares
  rw [and_yes, bne_iff_ne]
  split <;> simp [yes_ne_zero, *]

variable {k : Stock} {algebra : Algebra} {width : OffsetWidth} {payload : k.packing.Payload}
  {v : View} {c : Compact (k.format algebra width)}

/-- Packing keeps the labels of every state in their order. -/
theorem labels_of_ofView (made : ofView? payload v = .ok c) (bare : v.Bare) (sound : v.Sound)
    {s : StateId} (plain : noLabel ∉ v.labels false s) (output : Bool) :
    c.view.labels output s = v.labels output s := by
  have checked : checkSource k.packing v = .ok () := (ofView?_eq_ok_iff.1 made).1
  have compatible := (checkSource_eq_ok_iff.1 checked).2
  by_cases inside : v.InRange s
  · have arcs : c.view.arcs s = (v.arcs s).map (k.restored s Fields.all) := by
      rw [← arcsAmong_entries (View.plain_of_labels plain)]
      exact arcs_of_ofView made inside
    unfold View.labels
    rw [arcs, List.map_map]
    refine List.map_congr_left fun a arc => ?_
    cases output with
    | false => rfl
    | true => exact View.olabel_restored sound bare compatible arc
  · have outside : ¬ c.view.InRange s := fun there => inside ((inRange_of_view made).1 there)
    simp [View.labels, (bare s inside).2, (c.bare_view s outside).2]

/-- The word of a packed machine says of the order of labels what its source answers. -/
theorem says_sorted_of_ofView (made : ofView? payload v = .ok c) {output : Bool}
    (said : Says c.properties (.sorted output) true) :
    Says (v.test copied) (.sorted output) true := by
  rw [(frame_of_ofView made).2.1] at said
  unfold declaredBy at said
  simpa [says_or, k.not_says_required_sorted, not_says_expanded] using said

end Compact

namespace View

/-- A view shows the labels of a machine, and nothing that it declares misleads a reader of
them. -/
structure Labelled (m : Machine) (v : View) : Prop where
  bare : v.Bare
  sound : v.Sound
  ordered : v.Ordered
  labels : ∀ output s, v.labels output s = m.view.labels output s

variable {m : Machine} {v : View}

theorem labelled_view (m : Machine) : Labelled m m.view :=
  ⟨m.bare_view, m.sound_view, ordered_view m, fun _ _ => rfl⟩

theorem Labelled.plain (labelled : Labelled m v)
    (plain : ∀ state ∈ m.states, ∀ a ∈ state.arcs, a.ilabel ≠ noLabel) (s : StateId) :
    noLabel ∉ v.labels false s := by
  rw [labelled.labels]
  intro member
  obtain ⟨a, arc, reserved⟩ := List.mem_map.1 member
  exact Machine.forall_arcs_view plain s a arc reserved

/-- Packing keeps a view labelled. -/
theorem Labelled.pack (labelled : Labelled m v)
    (plain : ∀ state ∈ m.states, ∀ a ∈ state.arcs, a.ilabel ≠ noLabel)
    {k : Stock} {algebra : Algebra} {width : OffsetWidth} {payload : k.packing.Payload}
    {c : Compact (k.format algebra width)} (made : Compact.ofView? payload v = .ok c) :
    Labelled m c.view := by
  have same (output : Bool) (s : StateId) : c.view.labels output s = v.labels output s :=
    Compact.labels_of_ofView made labelled.bare labelled.sound (labelled.plain plain s) output
  refine ⟨c.bare_view, Compact.sound_of_ofView made labelled.sound labelled.bare, ?_, ?_⟩
  · intro output said s
    rw [same]
    have answered := Compact.says_sorted_of_ofView made said
    exact labelled.ordered.pairwise_of_test labelled.bare answered s
  · intro output s
    rw [same, labelled.labels]

theorem PackedFrom.labelled (source : PackedFrom m v)
    (plain : ∀ state ∈ m.states, ∀ a ∈ state.arcs, a.ilabel ≠ noLabel) : Labelled m v := by
  induction source with
  | machine => exact labelled_view m
  | packed source made ih => exact ih.pack plain made

end View
end Transducer
