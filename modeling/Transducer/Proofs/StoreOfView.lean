import Transducer.Proofs.Outcome
import Transducer.Proofs.StoreRows
/-!
# Stores made from views

When the entries of a view fit a packing and a width, its store holds one row for each state, the
packed entries of that state; when they do not, building fails as a mismatch and in no other way.
Whether they fit is a condition on the entries alone (`Fits`), which mentions neither the order in
which the counts are checked nor the offsets.
-/
namespace Transducer

variable {P : Packing} {w : OffsetWidth}

namespace View

theorem length_entries (v : View) (s : StateId) :
    (v.entries s).length = v.numArcs s + (v.isFinal s).toNat := by
  unfold entries numArcs
  cases v.isFinal s <;> simp [Nat.add_comm]

@[simp] theorem length_states (v : View) : v.states.length = v.numStates := by
  simp [states]

/-- How many entries each state has. -/
def entryCounts (v : View) : List Nat := v.states.map fun s => (v.entries s).length

/-- The entries are the arcs and the final weights. -/
theorem sum_entryCounts (v : View) :
    v.entryCounts.sum = v.totalArcs + v.states.countP v.isFinal := by
  unfold entryCounts totalArcs total
  induction v.states with
  | nil => rfl
  | cons s states ih =>
    rw [List.map_cons, List.sum_cons, ih, length_entries, List.countP_cons, List.foldr_cons]
    cases v.isFinal s <;> simp <;> omega

/-- The entries of every state can be held by the packing, and found with offsets of the width. -/
def Fits (v : View) (P : Packing) (w : OffsetWidth) : Prop :=
  match P.arity with
  | .fixed k => ∀ count ∈ v.entryCounts, count = k
  | .indexed => v.entryCounts.sum < 256 ^ w.bytes

theorem fits_iff_of_fixed {v : View} {k : Nat} (arity : P.arity = .fixed k) :
    v.Fits P w ↔ ∀ count ∈ v.entryCounts, count = k := by
  unfold Fits
  rw [arity]

theorem fits_iff_of_indexed {v : View} (arity : P.arity = .indexed) :
    v.Fits P w ↔ v.entryCounts.sum < 256 ^ w.bytes := by
  unfold Fits
  rw [arity]

theorem checkState_fixed {k : Nat} (h : P.arity = .fixed k) (s : StateId) (entries : Nat) :
    P.checkState s entries
      = if entries = k then .ok () else .error (.mismatch (.state s entries k P.tag)) := by
  simp [Packing.checkState, h]

/-- Every state passes its check exactly when all of them have the number demanded. -/
theorem forM_checkState_eq_ok_iff {v : View} {k : Nat} (h : P.arity = .fixed k) :
    (v.states.forM fun s => P.checkState s (v.entries s).length) = .ok ()
      ↔ ∀ count ∈ v.entryCounts, count = k := by
  rw [forM_eq_ok_iff]
  simp only [entryCounts, List.mem_map, forall_exists_index, and_imp,
    forall_apply_eq_imp_iff₂, checkState_fixed h]
  refine forall_congr' fun s => imp_congr_right fun _ => ?_
  split <;> simp_all

theorem mismatch_of_forM_checkState {v : View} {cause : Error}
    (h : (v.states.forM fun s => P.checkState s (v.entries s).length) = .error cause) :
    ∃ reason, cause = .mismatch reason := by
  obtain ⟨s, _, failed⟩ := exists_of_forM_eq_error h
  unfold Packing.checkState at failed
  split at failed
  · split at failed
    · cases failed
    · cases failed
      exact ⟨_, rfl⟩
  · cases failed

/-- Full states fill a total that is the product. -/
theorem totalArcs_add_finals {v : View} {k : Nat} (h : ∀ count ∈ v.entryCounts, count = k) :
    v.totalArcs + v.states.countP v.isFinal = k * v.numStates := by
  have number : v.entryCounts.length = v.numStates := by simp [entryCounts]
  rw [← sum_entryCounts, ← List.take_length (l := v.entryCounts),
    sum_take_of_forall_eq h (Nat.le_refl _), number, Nat.mul_comm]

end View

namespace Store

theorem addressingOf_of_fits {v : View} (fits : v.Fits P w) :
    ∃ a, addressingOf P w v = .ok a ∧ a.arity = P.arity ∧ a.Cuts v.entryCounts := by
  cases arity : P.arity with
  | fixed k =>
    rw [View.fits_iff_of_fixed arity] at fits
    have checked := (View.forM_checkState_eq_ok_iff arity).2 fits
    refine ⟨.grouped k, ?_, rfl, fits⟩
    have total := Arity.fills_of_eq (View.totalArcs_add_finals fits)
    simp [addressingOf, arity, total, checked, bind, Except.bind, pure, Except.pure]
  | indexed =>
    rw [View.fits_iff_of_indexed arity] at fits
    have small : ∀ n ∈ runningSums 0 v.entryCounts, n < 256 ^ w.bytes := fun n member =>
      Nat.lt_of_le_of_lt (le_of_mem_runningSums member) (by rwa [Nat.zero_add])
    obtain ⟨offsets, made, values⟩ := Offset.mapM_ofNat_of_lt small
    refine ⟨.indexed (Region.owned offsets), ?_, rfl, values⟩
    rw [View.entryCounts] at made
    simp [addressingOf, arity, made, bind, Except.bind, pure, Except.pure]

theorem addressingOf_of_not_fits {v : View} (excess : ¬ v.Fits P w) :
    ∃ reason, addressingOf P w v = .error (.mismatch reason) := by
  cases arity : P.arity with
  | fixed k =>
    rw [View.fits_iff_of_fixed arity, ← View.forM_checkState_eq_ok_iff arity] at excess
    unfold addressingOf
    simp only [arity]
    split
    · exact ⟨_, rfl⟩
    · cases checked : v.states.forM fun s => P.checkState s (v.entries s).length with
      | ok u => exact absurd checked excess
      | error cause =>
        obtain ⟨reason, rfl⟩ := View.mismatch_of_forM_checkState checked
        exact ⟨reason, rfl⟩
  | indexed =>
    rw [View.fits_iff_of_indexed arity] at excess
    have member : v.entryCounts.sum ∈ runningSums 0 v.entryCounts := by
      have last := getLast?_runningSums_eq_sum 0 v.entryCounts
      rw [Nat.zero_add] at last
      exact List.mem_of_getLast? last
    obtain ⟨reason, failed⟩ := Offset.mapM_ofNat_of_le member (Nat.not_lt.1 excess)
    rw [View.entryCounts] at failed
    exact ⟨reason, by simp [addressingOf, arity, failed, bind, Except.bind]⟩

/-- The rows of a store made from a view: the packed entries of its states. -/
def rowsOf (P : Packing) (payload : P.Payload) (v : View) : List (List P.Element) :=
  v.states.map (P.packState payload v)

theorem map_length_rowsOf (payload : P.Payload) (v : View) :
    (rowsOf P payload v).map List.length = v.entryCounts := by
  simp [rowsOf, View.entryCounts, Packing.packState]

/-- A view that fits is packed, and its store holds the rows of its states. -/
theorem ofView_of_fits (payload : P.Payload) {v : View} (fits : v.Fits P w) :
    ∃ store, ofView P w payload v = .ok store ∧ store.Holds (rowsOf P payload v)
      ∧ store.start = v.start ∧ store.numArcs = v.totalArcs := by
  obtain ⟨a, made, arity, cuts⟩ := addressingOf_of_fits fits
  refine ⟨⟨a, Region.owned (v.states.flatMap (P.packState payload v)), v.start, v.numStates,
    v.totalArcs⟩, ?_, ⟨?_, ?_, arity, ?_⟩, rfl, rfl⟩
  · rw [ofView, made]
    rfl
  · rw [rowsOf, ← List.flatMap_def]
    rfl
  · simp [rowsOf]
  · rw [map_length_rowsOf]
    exact cuts

/-- A view that does not fit is refused as a mismatch. -/
theorem ofView_of_not_fits (payload : P.Payload) {v : View} (excess : ¬ v.Fits P w) :
    ∃ reason, ofView P w payload v = .error (.mismatch reason) := by
  obtain ⟨reason, failed⟩ := addressingOf_of_not_fits excess
  exact ⟨reason, by rw [ofView, failed]; rfl⟩

theorem fits_of_ofView {payload : P.Payload} {v : View} {store : Store P w}
    (h : ofView P w payload v = .ok store) : v.Fits P w := by
  by_contra excess
  obtain ⟨reason, failed⟩ := ofView_of_not_fits payload excess
  rw [failed] at h
  cases h

theorem holds_of_ofView {payload : P.Payload} {v : View} {store : Store P w}
    (h : ofView P w payload v = .ok store) :
    store.Holds (rowsOf P payload v) ∧ store.start = v.start ∧ store.numArcs = v.totalArcs := by
  obtain ⟨found, made, facts⟩ := ofView_of_fits payload (fits_of_ofView h)
  rw [h] at made
  cases made
  exact facts

end Store
end Transducer
