import Mathlib.Data.List.Forall2
import Transducer.View
/-!
# Machines that agree

Two machines agree when they have the same start, the same symbol tables and, state by state, the
same arcs in the same order and the same final weight. Weights are compared as patterns when the
agreement is exact and as numbers otherwise, so that the two zeros of single precision are told
apart by an exact agreement only. Views agree when they do so under every number, also under those
that name no state; then the machines they show agree (`Agree.machine`).
-/
namespace Transducer

namespace Weight

/-- Infinity has one pattern only. -/
theorem eq_zero_of_isZero {w : Weight} (h : w.isZero = true) : w = zero := by
  obtain ⟨_, _, keys⟩ := Binary32.equals_iff.1 h
  have infinite : zero.value.key = 0x7f800000 := by decide
  rw [infinite, Binary32.key, Binary32.isNegative, Binary32.magnitude] at keys
  have below := w.value.bits.toNat_lt
  have bits : w.value.bits.toNat = 0x7f800000 := by
    split at keys <;> simp_all <;> omega
  have pattern : w.value.bits = 0x7f800000 := UInt32.toNat_inj.1 bits
  obtain ⟨⟨_⟩⟩ := w
  simp only at pattern
  rw [pattern]
  rfl

/-- Equal weights, as patterns or as numbers. -/
def Agree (exact : Bool) (a b : Weight) : Prop := if exact then a = b else a.same b = true

theorem agree_true {a b : Weight} : Agree true a b ↔ a = b := Iff.rfl

theorem agree_false {a b : Weight} : Agree false a b ↔ a.same b = true := Iff.rfl

theorem agree_zero (exact : Bool) : Agree exact zero zero := by
  cases exact with
  | true => exact agree_true.2 rfl
  | false => exact agree_false.2 (by decide)

end Weight

/-- Equal arcs up to the way weights are compared. -/
structure Arc.Agree (exact : Bool) (a b : Arc) : Prop where
  ilabel : b.ilabel = a.ilabel
  olabel : b.olabel = a.olabel
  weight : Weight.Agree exact a.weight b.weight
  nextstate : b.nextstate = a.nextstate

theorem Arc.Agree.eq {a b : Arc} (h : Arc.Agree true a b) : a = b := by
  obtain ⟨ilabel, olabel, weight, nextstate⟩ := h
  cases a
  cases b
  simp only at ilabel olabel weight nextstate
  rw [ilabel, olabel, ← Weight.agree_true.1 weight, nextstate]

/-- Lists whose values are equal in pairs are equal. -/
theorem eq_of_forall₂ {α : Type} {R : α → α → Prop} (equal : ∀ a b, R a b → a = b)
    {values others : List α} (h : List.Forall₂ R values others) : values = others := by
  have pairs : List.Forall₂ Eq values others := h.imp equal
  rwa [List.forall₂_eq_eq_eq] at pairs

/-- Equal states up to the way weights are compared. -/
structure State.Agree (exact : Bool) (a b : State) : Prop where
  final : Weight.Agree exact a.final b.final
  arcs : List.Forall₂ (Arc.Agree exact) a.arcs b.arcs

theorem State.Agree.eq {a b : State} (h : State.Agree true a b) : a = b := by
  have final := Weight.agree_true.1 h.final
  have arcs := eq_of_forall₂ (fun _ _ => Arc.Agree.eq) h.arcs
  cases a
  cases b
  simp only at final arcs
  rw [final, arcs]

/-- Equal machines up to the way weights are compared. -/
structure Machine.Agree (exact : Bool) (m n : Machine) : Prop where
  start : n.start = m.start
  states : List.Forall₂ (State.Agree exact) m.states n.states
  symbols : n.symbols = m.symbols

/-- Machines that agree exactly are the same. -/
theorem Machine.Agree.eq {m n : Machine} (h : Machine.Agree true m n) : m = n := by
  obtain ⟨start, pairs, symbols⟩ := h
  have states := eq_of_forall₂ (fun _ _ => State.Agree.eq) pairs
  cases m
  cases n
  simp only at start states symbols
  rw [start, states, symbols]

namespace View

/-- Equal answers under every number, up to the way weights are compared. -/
structure Agree (exact : Bool) (v w : View) : Prop where
  start : w.start = v.start
  numStates : w.numStates = v.numStates
  symbols : w.symbols = v.symbols
  final : ∀ s, Weight.Agree exact (v.final s) (w.final s)
  arcs : ∀ s, List.Forall₂ (Arc.Agree exact) (v.arcs s) (w.arcs s)

variable {exact : Bool} {v w : View}

theorem Agree.numArcs (h : v.Agree exact w) (s : StateId) : w.numArcs s = v.numArcs s :=
  (h.arcs s).length_eq.symm

theorem Agree.machine (h : v.Agree exact w) : v.machine.Agree exact w.machine := by
  refine ⟨h.start, ?_, h.symbols⟩
  have states : w.states = v.states := by rw [View.states, View.states, h.numStates]
  simp only [View.machine, states]
  rw [List.forall₂_map_left_iff, List.forall₂_map_right_iff, List.forall₂_same]
  exact fun s _ => ⟨h.final s, h.arcs s⟩

end View
end Transducer
