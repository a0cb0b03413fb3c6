import Transducer.Proofs.Preservation
/-!
# The law of packings

Packing an arc and unpacking it again should give the arc back, for every arc of a machine that the
packing accepts. A stock packing fills the fields that it drops in from the traits that it demands;
here is what this is worth, field by field. Final weights always come back. An arc comes back
exactly if its weight is kept or is not that of no path, and its target is kept or its label is not
the reserved one (`unpack_pack_same_iff`). The traits do not exclude the others: a machine without
weights may have arcs of no path, and a string may have arcs of the reserved label.
-/
namespace Transducer

/-- A weight that is a number is the same as itself. -/
theorem Weight.same_self_of_isMember {w : Weight} (member : w.isMember = true) :
    w.same w = true := by
  have number := not_isNaN_of_isMember member
  exact Binary32.equals_iff.2 ⟨number, number, rfl⟩

theorem Arc.same_iff {a b : Arc} :
    a.same b = true ↔ a.ilabel = b.ilabel ∧ a.olabel = b.olabel ∧ a.weight.same b.weight = true
      ∧ a.nextstate = b.nextstate := by
  simp only [same, Bool.and_eq_true, beq_iff_eq, and_assoc]

/-- The state after one that exists is a state. -/
theorem add_one_ne_noState {s : StateId} (nonneg : 0 ≤ s.toInt) : s + 1 ≠ noState := by
  intro last
  have before : s = noState - 1 := by rw [← last, Int32.add_sub_cancel]
  rw [before] at nonneg
  exact absurd nonneg (by decide)

namespace View

variable {k : Stock} {v : View} {s : StateId} {a : Arc}

section

variable (sound : v.Sound) (bare : v.Bare)
  (compatible : v.test k.packing.required = k.packing.required)
include sound bare compatible

/-- A dropped weight comes back as that of the empty path, which the weight of no path is not. -/
theorem weight_restored_same_iff (arc : a ∈ v.arcs s) (member : a.weight.isMember = true) :
    (k.restored s Fields.all a).weight.same a.weight = true
      ↔ k.keepsWeights = true ∨ a.weight.isZero = false := by
  change (if (k.keepsWeights && true) = true then a.weight else Weight.one).same a.weight = true ↔ _
  cases kept : k.keepsWeights with
  | true => exact iff_of_true (Weight.same_self_of_isMember member) (Or.inl rfl)
  | false =>
    simp only [Bool.false_and, Bool.false_eq_true, if_false, false_or]
    constructor
    · intro same
      cases path : a.weight.isZero with
      | false => rfl
      | true =>
        rw [Weight.eq_zero_of_isZero path] at same
        exact absurd same (by decide)
    · intro path
      rw [Weight.same_comm]
      exact same_one_of_dropped sound bare compatible kept arc path

/-- A dropped target comes back as the following state, unless the label makes the element look like
an end: an end leads nowhere, and the arc led to a state. -/
theorem nextstate_restored_iff (inside : v.InRange s) (arc : a ∈ v.arcs s) :
    (k.restored s Fields.all a).nextstate = a.nextstate
      ↔ k.keepsTarget = true ∨ a.ilabel ≠ noLabel := by
  constructor
  · intro same
    by_contra lost
    rw [not_or, Bool.not_eq_true, not_not] at lost
    obtain ⟨dropped, reserved⟩ := lost
    have next := sound.obeys_of_compatible bare compatible (Stock.says_required_string dropped)
    have nowhere : (k.restored s Fields.all a).nextstate = noState := by
      rw [Stock.restored, dropped]
      exact if_pos reserved
    rw [nowhere, next s a arc] at same
    exact add_one_ne_noState inside.1 same.symm
  · exact nextstate_restored sound bare compatible arc

/-- Every arc of the view lies in one of its states. -/
theorem unpack_pack_arc_iff (payload : k.packing.Payload) (arc : a ∈ v.arcs s)
    (member : a.weight.isMember = true) :
    (k.packing.unpack payload s (k.packing.pack payload s a) Fields.all).same a = true
      ↔ (k.keepsWeights = true ∨ a.weight.isZero = false)
        ∧ (k.keepsTarget = true ∨ a.ilabel ≠ noLabel) := by
  have inside : v.InRange s := by
    by_contra outside
    rw [(bare s outside).2] at arc
    cases arc
  rw [Stock.unpack_pack, Arc.same_iff, olabel_restored sound bare compatible arc,
    weight_restored_same_iff sound bare compatible arc member,
    nextstate_restored_iff sound bare compatible inside arc]
  exact ⟨fun ⟨_, _, kept⟩ => kept, fun kept => ⟨rfl, rfl, kept⟩⟩

theorem unpack_pack_superfinal_same (payload : k.packing.Payload) (final : v.isFinal s = true)
    (member : (v.final s).isMember = true) :
    (k.packing.unpack payload s (k.packing.pack payload s (Arc.superfinal (v.final s)))
      Fields.all).same (Arc.superfinal (v.final s)) = true := by
  rw [Stock.unpack_pack_superfinal, Arc.same_iff]
  refine ⟨rfl, rfl, ?_, rfl⟩
  change (if k.keepsWeights = true then v.final s else Weight.one).same (v.final s) = true
  cases kept : k.keepsWeights with
  | true => exact Weight.same_self_of_isMember member
  | false =>
    have free := sound.obeys_of_compatible bare compatible (Stock.says_required_weighted kept)
    have path : (v.final s).isZero = false := by simpa [isFinal] using final
    rw [if_neg Bool.false_ne_true, Weight.same_comm]
    exact Weight.same_one_of_not_costs (free s).1 path

end

end View

/-- What the law of packings is worth, for a machine that a stock packing accepts and weights of the
algebras: an arc comes back exactly if its weight is kept or is not that of no path and its target
is kept or its label is not the reserved one. The final weight of every final state comes back. -/
theorem unpack_pack_same_iff (k : Stock) (payload : k.packing.Payload) (m : Machine)
    (compatible : m.view.test k.packing.required = k.packing.required) :
    (∀ s, ∀ a ∈ m.view.arcs s, a.weight.isMember = true →
      ((k.packing.unpack payload s (k.packing.pack payload s a) Fields.all).same a = true
        ↔ (k.keepsWeights = true ∨ a.weight.isZero = false)
          ∧ (k.keepsTarget = true ∨ a.ilabel ≠ noLabel)))
      ∧ ∀ s, m.view.isFinal s = true → (m.view.final s).isMember = true →
        (k.packing.unpack payload s (k.packing.pack payload s (Arc.superfinal (m.view.final s)))
          Fields.all).same (Arc.superfinal (m.view.final s)) = true := by
  constructor
  · intro s a arc member
    exact View.unpack_pack_arc_iff m.sound_view m.bare_view compatible payload arc member
  · intro s final member
    exact View.unpack_pack_superfinal_same m.sound_view m.bare_view compatible payload final member

/-- A machine whose only arc is of no path. -/
def brokenPath : Machine :=
  ⟨0, [⟨Weight.zero, [⟨1, 2, Weight.zero, 1⟩]⟩, ⟨Weight.one, []⟩], SymbolPair.none⟩

/-- A string whose only arc has the reserved label. -/
def reservedString : Machine :=
  ⟨0, [⟨Weight.zero, [⟨noLabel, noLabel, Weight.one, 1⟩]⟩, ⟨Weight.one, []⟩], SymbolPair.none⟩

/-- Both are accepted, and their arcs do not come back. -/
theorem not_unpack_pack_same :
    (Compact.checkSource Stock.unweighted.packing brokenPath.view = .ok ()
        ∧ ∃ a ∈ brokenPath.view.arcs 0, a.weight.isMember = true
          ∧ (Packing.unweighted.unpack () 0 (Packing.unweighted.pack () 0 a) Fields.all).same a
            = false)
      ∧ (Compact.checkSource Stock.string.packing reservedString.view = .ok ()
        ∧ ∃ a ∈ reservedString.view.arcs 0, a.weight.isMember = true
          ∧ (Packing.string.unpack () 0 (Packing.string.pack () 0 a) Fields.all).same a = false) := by
  refine ⟨⟨?_, ⟨1, 2, Weight.zero, 1⟩, ?_⟩, ?_, ⟨noLabel, noLabel, Weight.one, 1⟩, ?_⟩
  · cbv
  · decide
  · cbv
  · decide

/-- The arcs and the final weight of a string of two labels come back. -/
theorem unpack_pack_same_line :
    (∀ s, ∀ a ∈ (Machine.linear [1, 2] Weight.one).view.arcs s,
        (Packing.string.unpack () s (Packing.string.pack () s a) Fields.all).same a = true)
      ∧ (Packing.string.unpack () 2 (Packing.string.pack () 2 (Arc.superfinal Weight.one))
        Fields.all).same (Arc.superfinal Weight.one) = true := by
  have accepted : Compact.checkSource Stock.string.packing (Machine.linear [1, 2] Weight.one).view
      = .ok () := by
    cbv
  have plain : ∀ s, ∀ a ∈ (Machine.linear [1, 2] Weight.one).view.arcs s,
      a.weight.isMember = true ∧ a.weight.isZero = false ∧ a.ilabel ≠ noLabel := by
    have checked : ((Machine.linear [1, 2] Weight.one).view.states.all fun s =>
        ((Machine.linear [1, 2] Weight.one).view.arcs s).all fun a =>
          a.weight.isMember && !a.weight.isZero && a.ilabel != noLabel) = true := by
      cbv
    refine (Machine.linear [1, 2] Weight.one).bare_view.forall_arcs ?_
    intro s state a arc
    have holds := List.all_eq_true.1 (List.all_eq_true.1 checked s state) a arc
    simpa [and_assoc] using holds
  obtain ⟨arcs, finals⟩ := unpack_pack_same_iff .string () (Machine.linear [1, 2] Weight.one)
    (Compact.checkSource_eq_ok_iff.1 accepted).2
  refine ⟨?_, finals 2 (by decide) (by decide)⟩
  intro s a arc
  obtain ⟨member, path, label⟩ := plain s a arc
  exact (arcs s a arc member).2 ⟨Or.inr path, Or.inr label⟩

end Transducer
