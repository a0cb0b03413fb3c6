import Mathlib.Data.Finset.Card
import Transducer.Proofs.PackedView
import Transducer.Summary
/-!
# Walks along single arcs

The labels of a string are read off by following single arcs for at most as many steps as there are
states. Such a walk is fixed by its first state, since no state that it passes leaves a choice, so
from two places of it different numbers of labels follow and no state is passed twice
(`Walk.injective`). The bound never cuts a walk off therefore, while on a cycle the steps run out.
Main statement: the labels found are those of the walk from the start, and none are found exactly if
there is no such walk (`stringLabels_exact`).
-/
namespace Transducer

namespace View

/-- Numbered states, each but the last with one arc, to the state after it. None but the last is
final, and that one has no arcs. -/
structure Walk (v : View) (q : Nat → StateId) (ls : List Label) : Prop where
  inside : ∀ i ≤ ls.length, v.InRange (q i)
  steps : ∀ i label, ls[i]? = some label →
    v.isFinal (q i) = false ∧ ∃ a, v.arcs (q i) = [a] ∧ a.ilabel = label ∧ a.nextstate = q (i + 1)
  ends : v.isFinal (q ls.length) = true ∧ v.arcs (q ls.length) = []

variable {v : View} {q : Nat → StateId} {ls : List Label}

/-- What is left of a walk is a walk. -/
theorem Walk.drop (walk : v.Walk q ls) {k : Nat} (inside : k ≤ ls.length) :
    v.Walk (fun i => q (k + i)) (ls.drop k) := by
  have last : k + (ls.length - k) = ls.length := by omega
  refine ⟨?_, ?_, ?_⟩
  · intro i below
    rw [List.length_drop] at below
    exact walk.inside (k + i) (by omega)
  · intro i label there
    rw [List.getElem?_drop] at there
    exact walk.steps (k + i) label there
  · rw [List.length_drop, last]
    exact walk.ends

/-- The labels of a walk are found from its first state, whatever the bound above their number. -/
theorem Walk.labelsFrom (walk : v.Walk q ls) {steps : Nat} (enough : ls.length < steps) :
    v.labelsFrom steps (q 0) = some ls := by
  induction ls generalizing q steps with
  | nil =>
    obtain ⟨steps, rfl⟩ := Nat.exists_eq_add_of_lt enough
    have ends := walk.ends
    simp only [List.length_nil] at ends
    simp [View.labelsFrom, ends]
  | cons label ls ih =>
    cases steps with
    | zero => exact absurd enough (Nat.not_lt_zero _)
    | succ steps =>
      obtain ⟨passes, a, arcs, same, next⟩ := walk.steps 0 label rfl
      have rest := ih (walk.drop (k := 1) (by simp)) (Nat.lt_of_succ_lt_succ enough)
      simp only [View.labelsFrom, arcs, passes, next]
      rw [same]
      simpa using rest

/-- No state is passed twice: where a walk comes by again, as many labels would have to follow. -/
theorem Walk.injective (walk : v.Walk q ls) {i j : Nat} (left : i ≤ ls.length)
    (right : j ≤ ls.length) (same : q i = q j) : i = j := by
  have found {k : Nat} (inside : k ≤ ls.length) :
      v.labelsFrom (ls.length + 1) (q k) = some (ls.drop k) :=
    (walk.drop inside).labelsFrom (by rw [List.length_drop]; omega)
  have labels : some (ls.drop i) = some (ls.drop j) := by
    rw [← found left, ← found right, same]
  have lengths := congrArg List.length (Option.some.inj labels)
  rw [List.length_drop, List.length_drop] at lengths
  omega

/-- A walk passes fewer arcs than there are states. -/
theorem Walk.length_lt (walk : v.Walk q ls) : ls.length < v.numStates := by
  let position (i : Nat) : Nat := (q i).toInt.toNat
  have maps : ∀ i ∈ Finset.range (ls.length + 1), position i ∈ Finset.range v.numStates := by
    intro i below
    have inside := walk.inside i (Nat.le_of_lt_succ (Finset.mem_range.1 below))
    unfold InRange at inside
    simp only [position, Finset.mem_range]
    omega
  have apart : Set.InjOn position (Finset.range (ls.length + 1)) := by
    intro i left j right same
    have below := Nat.le_of_lt_succ (Finset.mem_range.1 left)
    have above := Nat.le_of_lt_succ (Finset.mem_range.1 right)
    refine walk.injective below above ?_
    rw [← stateAt_toNat (walk.inside i below).1, ← stateAt_toNat (walk.inside j above).1]
    exact congrArg stateAt same
  have fewer := Finset.card_le_card_of_injOn position maps apart
  rw [Finset.card_range, Finset.card_range] at fewer
  exact fewer

/-- A walk goes back over an arc to a state that is not final. -/
theorem Walk.cons (walk : v.Walk q ls) {s : StateId} {a : Arc} (inside : v.InRange s)
    (passes : v.isFinal s = false) (arcs : v.arcs s = [a]) (next : a.nextstate = q 0) :
    v.Walk (fun i => i.casesOn s q) (a.ilabel :: ls) := by
  refine ⟨?_, ?_, walk.ends⟩
  · intro i below
    cases i with
    | zero => exact inside
    | succ i => exact walk.inside i (Nat.le_of_succ_le_succ below)
  · intro i label there
    cases i with
    | zero =>
      cases there
      exact ⟨passes, a, arcs, rfl, next⟩
    | succ i => exact walk.steps i label there

/-- A state that is final or has arcs is one of the states. -/
theorem Bare.inRange (bare : v.Bare) {s : StateId} (shown : v.isFinal s = true ∨ v.arcs s ≠ []) :
    v.InRange s := by
  refine Classical.byContradiction fun outside => ?_
  obtain ⟨zero, nothing⟩ := bare s outside
  cases shown with
  | inl final =>
    unfold isFinal at final
    rw [zero] at final
    revert final
    decide
  | inr arcs => exact arcs nothing

/-- Labels that are found are those of a walk. -/
theorem Bare.exists_walk (bare : v.Bare) {steps : Nat} {s : StateId}
    (found : v.labelsFrom steps s = some ls) : ∃ q, q 0 = s ∧ v.Walk q ls := by
  induction steps generalizing s ls with
  | zero => cases found
  | succ steps ih =>
    unfold View.labelsFrom at found
    split at found
    · rename_i nothing
      split at found
      · rename_i final
        cases found
        exact ⟨fun _ => s, rfl, fun _ _ => bare.inRange (Or.inl final), by simp, final, nothing⟩
      · cases found
    · rename_i a arcs
      split at found
      · cases found
      · rename_i passes
        obtain ⟨rest, later, rfl⟩ := Option.map_eq_some_iff.1 found
        obtain ⟨q, next, walk⟩ := ih later
        refine ⟨fun i => i.casesOn s q, rfl, walk.cons ?_ (by simpa using passes) arcs next.symm⟩
        exact bare.inRange (Or.inr (by simp [arcs]))
    · cases found

/-- As many steps as there are states find the labels of every walk, and nothing else. -/
theorem Bare.labelsFrom_eq_some_iff (bare : v.Bare) {steps : Nat} (enough : v.numStates ≤ steps)
    {s : StateId} : v.labelsFrom steps s = some ls ↔ ∃ q, q 0 = s ∧ v.Walk q ls := by
  constructor
  · exact bare.exists_walk
  · intro found
    obtain ⟨q, rfl, walk⟩ := found
    exact walk.labelsFrom (Nat.lt_of_lt_of_le walk.length_lt enough)

/-- The labels along a view are found exactly. -/
structure LabelsExact (v : View) : Prop where
  found : ∀ ls, v.stringLabels? = some ls ↔ ∃ q, q 0 = v.start ∧ v.Walk q ls
  missed : v.stringLabels? = none ↔ ¬ ∃ ls q, q 0 = v.start ∧ v.Walk q ls
  /-- No walk is too long for the bound. -/
  bounded : ∀ q ls, v.Walk q ls → ls.length < v.numStates
  /-- More steps than the bound find nothing more. -/
  uncut : ∀ steps s, v.numStates ≤ steps → v.labelsFrom steps s = v.labelsFrom v.numStates s

theorem Bare.labelsExact (bare : v.Bare) : v.LabelsExact := by
  have found (ls : List Label) : v.stringLabels? = some ls ↔ ∃ q, q 0 = v.start ∧ v.Walk q ls := by
    unfold stringLabels?
    split
    · rename_i nowhere
      refine iff_of_false (by simp) ?_
      intro impossible
      obtain ⟨q, start, walk⟩ := impossible
      have inside := (walk.inside 0 (Nat.zero_le _)).1
      rw [start, nowhere] at inside
      exact absurd inside (by decide)
    · exact bare.labelsFrom_eq_some_iff (Nat.le_refl _)
  refine ⟨found, ?_, fun _ _ walk => walk.length_lt, ?_⟩
  · simp only [Option.eq_none_iff_forall_ne_some, ne_eq, found, not_exists]
  · intro steps s enough
    refine Option.ext fun ls => ?_
    rw [bare.labelsFrom_eq_some_iff enough, bare.labelsFrom_eq_some_iff (Nat.le_refl _)]

end View

/-- The labels along a machine that can be changed, or along a packed one, are those of the walk
over single arcs from the start; there are none exactly if there is no such walk. -/
theorem stringLabels_exact : (∀ m : Machine, m.view.LabelsExact)
    ∧ ∀ (F : Format) (c : Compact F), c.view.LabelsExact :=
  ⟨fun m => m.bare_view.labelsExact, fun _ c => c.bare_view.labelsExact⟩

/-- From the start a single arc leads to a state that leads to itself. -/
example : View.stringLabels? (Machine.view ⟨0, [⟨Weight.zero, [⟨5, 5, Weight.one, 1⟩]⟩,
    ⟨Weight.zero, [⟨6, 6, Weight.one, 1⟩]⟩], SymbolPair.none⟩) = none := by
  decide

end Transducer
