import Mathlib
import Transducer.Proofs.Agreement
import Transducer.Proofs.PackedView
/-!
# Packing preserves the machine

A machine that can be changed is packed, the packed machine may be packed again, and so on along
any chain of stock packings and widths (`Chained`). No link of such a chain errs on a trait that a
packing relies on, which is what lets a packing drop a field of the arcs and fill it in later.
Main statement: a packed machine agrees with the machine it was packed from, provided that no arc
carries the label reserved for final weights (`agree_of_ofView`).
-/
namespace Transducer

namespace View

/-- The views of machines that can be changed, and of what is packed from such views by stock
packings, any number of times. -/
inductive Chained : View → Prop where
  | machine (m : Machine) : Chained m.view
  | packed {k : Stock} {algebra : Algebra} {width : OffsetWidth} {payload : k.packing.Payload}
      {v : View} {c : Compact (k.format algebra width)} (source : Chained v)
      (made : Compact.ofView? payload v = .ok c) : Chained c.view

/-- A chain starts bare and sound, and every packing keeps it so. -/
theorem Chained.bare_and_sound {v : View} (chained : v.Chained) : v.Bare ∧ v.Sound := by
  induction chained with
  | machine m => exact ⟨m.bare_view, m.sound_view⟩
  | packed source made ih =>
    obtain ⟨bare, sound⟩ := ih
    exact ⟨Compact.bare_view _, Compact.sound_of_ofView made sound bare⟩

end View

/-- A weight that is no cost of its own, and is not that of no path, is that of the empty path. -/
theorem Weight.same_one_of_not_costs {w : Weight} (free : Machine.costs w = false)
    (path : w.isZero = false) : w.same Weight.one = true := by
  unfold Machine.costs at free
  rw [path] at free
  change w.isOne = true
  simpa using free

namespace View

variable {k : Stock} {v : View} (sound : v.Sound) (bare : v.Bare)
  (compatible : v.test k.packing.required = k.packing.required)
include sound bare compatible

/-- Output labels come back. -/
theorem olabel_restored {s : StateId} {a : Arc} (arc : a ∈ v.arcs s) :
    (k.restored s Fields.all a).olabel = a.olabel := by
  change (if k.keepsOutput = true then a.olabel else a.ilabel) = a.olabel
  cases kept : k.keepsOutput with
  | true => rfl
  | false =>
    have equal := sound.obeys_of_compatible bare compatible (Stock.says_required_acceptor kept)
    exact (equal s a arc).symm

/-- Dropped weights are those of the empty path, if they are of a path at all. -/
theorem same_one_of_dropped (dropped : k.keepsWeights = false) {s : StateId} {a : Arc}
    (arc : a ∈ v.arcs s) (path : a.weight.isZero = false) : a.weight.same Weight.one = true := by
  have free := sound.obeys_of_compatible bare compatible (Stock.says_required_weighted dropped)
  exact Weight.same_one_of_not_costs ((free s).2 a arc) path

/-- Targets come back, if no label makes an element look like an end. -/
theorem nextstate_restored {s : StateId} {a : Arc} (arc : a ∈ v.arcs s)
    (plain : k.keepsTarget = true ∨ a.ilabel ≠ noLabel) :
    (k.restored s Fields.all a).nextstate = a.nextstate := by
  change (if k.keepsTarget = true then a.nextstate else Packing.followingState s a.ilabel)
    = a.nextstate
  cases kept : k.keepsTarget with
  | true => rfl
  | false =>
    have next := sound.obeys_of_compatible bare compatible (Stock.says_required_string kept)
    have unreserved : a.ilabel ≠ noLabel := by simpa [kept] using plain
    rw [next s a arc]
    exact if_neg unreserved

end View

namespace Compact

variable {k : Stock} {algebra : Algebra} {width : OffsetWidth} {payload : k.packing.Payload}
  {v : View} {c : Compact (k.format algebra width)}

/-- The fields that a packing drops come back from the traits it demands. -/
theorem agree_restored (h : ofView? payload v = .ok c) (bare : v.Bare) (sound : v.Sound)
    {s : StateId} {a : Arc} (member : a ∈ v.arcs s) (plain : a.ilabel ≠ noLabel)
    (path : k.keepsWeights = false → a.weight.isZero = false) :
    Arc.Agree k.keepsWeights a (k.restored s Fields.all a) := by
  have checked : checkSource k.packing v = .ok () := (ofView?_eq_ok_iff.1 h).1
  have compatible := (checkSource_eq_ok_iff.1 checked).2
  refine ⟨rfl, View.olabel_restored sound bare compatible member, ?_,
    View.nextstate_restored sound bare compatible member (Or.inr plain)⟩
  change Weight.Agree _ a.weight (if (k.keepsWeights && true) = true then a.weight else Weight.one)
  cases kept : k.keepsWeights with
  | true => exact Weight.agree_true.2 rfl
  | false =>
    exact Weight.agree_false.2
      (View.same_one_of_dropped sound bare compatible kept member (path kept))

/-- The final weights come back, those of states that are not final included. -/
theorem agree_final (h : ofView? payload v = .ok c) (bare : v.Bare) (sound : v.Sound)
    {s : StateId} (inside : v.InRange s) (plain : ∀ a ∈ v.arcs s, a.ilabel ≠ noLabel) :
    Weight.Agree k.keepsWeights (v.final s) (c.final s) := by
  rw [final_of_ofView h inside]
  by_cases final : v.isFinal s = true
  · have entries : (v.entries s).head? = some (Arc.superfinal (v.final s)) := by
      rw [View.entries, if_pos final]
      rfl
    have path : (v.final s).isZero = false := by simpa [View.isFinal] using final
    rw [entries]
    change Weight.Agree _ _ (if (k.keepsWeights && true) = true then v.final s else Weight.one)
    cases kept : k.keepsWeights with
    | true => exact Weight.agree_true.2 rfl
    | false =>
      have free := obeys_of_required h sound bare (Stock.says_required_weighted kept)
      exact Weight.agree_false.2 (Weight.same_one_of_not_costs (free s).1 path)
  · have entries : v.entries s = v.arcs s := by
      rw [View.entries, if_neg final]
      rfl
    have zero : v.final s = Weight.zero := by
      refine Weight.eq_zero_of_isZero ?_
      simpa [View.isFinal] using final
    rw [entries, zero]
    cases arcs : v.arcs s with
    | nil => exact Weight.agree_zero _
    | cons a rest =>
      have unreserved : a.ilabel ≠ noLabel := plain a (by simp [arcs])
      simp only [List.head?_cons, if_neg unreserved]
      exact Weight.agree_zero _

/-- A packed machine agrees with the view it was packed from, under every number. -/
theorem view_agree_of_ofView (h : ofView? payload v = .ok c) (bare : v.Bare) (sound : v.Sound)
    (plain : ∀ s, ∀ a ∈ v.arcs s, a.ilabel ≠ noLabel)
    (path : k.keepsWeights = false → ∀ s, ∀ a ∈ v.arcs s, a.weight.isZero = false) :
    v.Agree k.keepsWeights c.view := by
  obtain ⟨_, _, symbols, _, start, numStates, _⟩ := frame_of_ofView h
  refine ⟨start, numStates, symbols, fun s => ?_, fun s => ?_⟩
  · by_cases inside : v.InRange s
    · exact agree_final h bare sound inside (plain s)
    · have outside : ¬ c.view.InRange s := fun there => inside ((inRange_of_view h).1 there)
      rw [(bare s inside).1, (c.bare_view s outside).1]
      exact Weight.agree_zero _
  · by_cases inside : v.InRange s
    · change List.Forall₂ _ (v.arcs s) (c.arcs s)
      rw [arcs_of_ofView h inside, arcsAmong_entries (plain s), List.forall₂_map_right_iff,
        List.forall₂_same]
      intro a member
      exact agree_restored h bare sound member (plain s a member) fun kept => path kept s a member
    · have outside : ¬ c.view.InRange s := fun there => inside ((inRange_of_view h).1 there)
      rw [(bare s inside).2, (c.bare_view s outside).2]
      exact List.Forall₂.nil

end Compact

/-- Whatever chain of packings a view comes from, its packed form shows the same machine, if its
states can be numbered: the same answers under every number, hence the same machine when it is
unpacked again. -/
theorem agree_of_ofView {v : View} (chained : v.Chained) (small : v.numStates ≤ 2147483647)
    {k : Stock} {algebra : Algebra} {width : OffsetWidth} {payload : k.packing.Payload}
    {c : Compact (k.format algebra width)}
    (made : Compact.ofView? payload v = .ok c)
    (plain : ∀ s, ∀ a ∈ v.arcs s, a.ilabel ≠ noLabel)
    (path : k.keepsWeights = false → ∀ s, ∀ a ∈ v.arcs s, a.weight.isZero = false) :
    v.Agree k.keepsWeights c.view
      ∧ (∀ s, c.view.numArcs s = v.numArcs s)
      ∧ v.machine.Agree k.keepsWeights c.view.machine
      ∧ (∀ m : Machine, v = m.view → m.Agree k.keepsWeights c.view.machine) := by
  obtain ⟨bare, sound⟩ := chained.bare_and_sound
  have agree := Compact.view_agree_of_ofView made bare sound plain path
  refine ⟨agree, agree.numArcs, agree.machine, ?_⟩
  rintro m rfl
  have unpacked := agree.machine
  rw [Machine.machine_view small] at unpacked
  exact unpacked

/-- A string of two labels, packed as an acceptor. -/
def packedLine : Compact (Stock.acceptor.format .tropical .four) :=
  Compact.ofView () (Machine.linear [1, 2] Weight.one).view

/-- The same string, packed once more. -/
def repackedLine : Compact (Stock.string.format .tropical .four) :=
  Compact.ofView () packedLine.view

theorem agree_repackedLine : packedLine.view.Agree false repackedLine.view := by
  have packed : Compact.ofView? () (Machine.linear [1, 2] Weight.one).view = .ok packedLine := by
    cbv
  have repacked : Compact.ofView? () packedLine.view = .ok repackedLine := by cbv
  have checked : (packedLine.view.states.all fun s => (packedLine.view.arcs s).all fun a =>
      a.ilabel != noLabel && !a.weight.isZero) = true := by cbv
  have each : ∀ s, ∀ a ∈ packedLine.view.arcs s, a.ilabel ≠ noLabel ∧ a.weight.isZero = false := by
    refine packedLine.bare_view.forall_arcs fun s state a member => ?_
    have holds := List.all_eq_true.1 (List.all_eq_true.1 checked s state) a member
    simpa using holds
  have three : packedLine.view.numStates = 3 := by cbv
  have small : packedLine.view.numStates ≤ 2147483647 := by omega
  exact (agree_of_ofView (.packed (.machine _) packed) small repacked (fun s a member =>
    (each s a member).1) (fun _ s a member => (each s a member).2)).1

end Transducer
