import Mathlib.Algebra.BigOperators.Group.List.Lemmas
import Mathlib.Algebra.Ring.Nat
import Transducer.Store.File
import Transducer.Store.OfElements
import Transducer.Store.OfView
/-!
# Stores as rows

A store keeps its elements in one list, and two ways of addressing cut it into the states. Here a
store is compared with the rows it was made of: `Holds` says that its elements are the rows one
after the other and that its addressing cuts between them. Every way of building a store, from a
view, from packed elements or from a file, gives a store that holds rows, and a store that holds
rows shows row `i` at position `i` (`Holds.windowAt`). Its offsets delimit the rows
(`Holds.delimits_of_indexed`), and rows of one size need none (`Holds.numElements_of_grouped`).
-/
namespace Transducer

/-! ## Running sums -/

theorem getElem?_runningSums (start : Nat) (lengths : List Nat) {i : Nat}
    (h : i ≤ lengths.length) :
    (runningSums start lengths)[i]? = some (start + (lengths.take i).sum) := by
  induction lengths generalizing start i with
  | nil => simp_all [runningSums]
  | cons length lengths ih =>
    cases i with
    | zero => simp [runningSums]
    | succ i =>
      rw [runningSums, List.getElem?_cons_succ, ih _ (by simpa using h)]
      simp [Nat.add_assoc]

theorem head?_runningSums (start : Nat) (lengths : List Nat) :
    (runningSums start lengths).head? = some start := by
  cases lengths <;> rfl

theorem le_of_mem_runningSums {start n : Nat} {lengths : List Nat}
    (h : n ∈ runningSums start lengths) : n ≤ start + lengths.sum := by
  induction lengths generalizing start with
  | nil => simp_all [runningSums]
  | cons length lengths ih =>
    rcases List.mem_cons.1 h with rfl | later
    · simp
    · have := ih later
      simp only [List.sum_cons]
      omega

theorem getLast?_runningSums_eq_sum (start : Nat) (lengths : List Nat) :
    (runningSums start lengths).getLast? = some (start + lengths.sum) := by
  rw [List.getLast?_eq_getElem?, length_runningSums, Nat.add_sub_cancel,
    getElem?_runningSums start lengths (Nat.le_refl _), List.take_length]

theorem neverFalls_runningSums (start : Nat) (lengths : List Nat) :
    neverFalls (runningSums start lengths) = true := by
  induction lengths generalizing start with
  | nil => rfl
  | cons length lengths ih =>
    have rest := ih (start + length)
    cases lengths <;> simp_all [runningSums, neverFalls]

theorem le_last_of_neverFalls {start last : Nat} {stops : List Nat}
    (rising : neverFalls (start :: stops) = true)
    (h : (start :: stops).getLast? = some last) : start ≤ last := by
  induction stops generalizing start with
  | nil => simp_all
  | cons stop stops ih =>
    simp only [neverFalls, Bool.and_eq_true, decide_eq_true_eq] at rising
    exact Nat.le_trans rising.1 (ih rising.2 (by rwa [List.getLast?_cons_cons] at h))

theorem le_of_mem_runningSums_of_start {start n : Nat} {lengths : List Nat}
    (h : n ∈ runningSums start lengths) : start ≤ n := by
  induction lengths generalizing start with
  | nil => exact Nat.le_of_eq (List.mem_singleton.1 h).symm
  | cons length lengths ih =>
    rcases List.mem_cons.1 h with rfl | later
    · exact Nat.le_refl _
    · exact Nat.le_trans (Nat.le_add_right start length) (ih later)

theorem pairwise_runningSums (start : Nat) (lengths : List Nat) :
    (runningSums start lengths).Pairwise (· ≤ ·) := by
  induction lengths generalizing start with
  | nil => exact List.pairwise_singleton _ _
  | cons length lengths ih =>
    refine List.pairwise_cons.2 ⟨?_, ih (start + length)⟩
    intro n later
    exact Nat.le_trans (Nat.le_add_right start length) (le_of_mem_runningSums_of_start later)

/-- Positions that never fall are the running sums of the rows between them. -/
theorem exists_rows_of_neverFalls {α : Type} {start : Nat} {stops : List Nat} {values : List α}
    (rising : neverFalls (start :: stops) = true)
    (last : (start :: stops).getLast? = some (start + values.length)) :
    ∃ rows : List (List α), rows.flatten = values
      ∧ runningSums start (rows.map List.length) = start :: stops := by
  induction stops generalizing start values with
  | nil =>
    have none_left : values = [] := by simpa using last
    subst none_left
    exact ⟨[], rfl, rfl⟩
  | cons stop stops ih =>
    simp only [neverFalls, Bool.and_eq_true, decide_eq_true_eq] at rising
    rw [List.getLast?_cons_cons] at last
    have inside := le_last_of_neverFalls rising.2 last
    have rest : (stop :: stops).getLast?
        = some (stop + (values.drop (stop - start)).length) := by
      rw [last, List.length_drop]
      congr 1
      omega
    obtain ⟨rows, flat, sums⟩ := ih rising.2 rest
    have length : (values.take (stop - start)).length = stop - start := by
      rw [List.length_take]; omega
    refine ⟨values.take (stop - start) :: rows, by simp [flat], ?_⟩
    rw [List.map_cons, runningSums, length, Nat.add_sub_cancel' rising.1, sums]

/-- As many values as `count` rows of `size` places hold are cut into such rows. -/
theorem exists_rows_of_length {α : Type} {count size : Nat} {values : List α}
    (h : values.length = count * size) :
    ∃ rows : List (List α), rows.flatten = values ∧ rows.length = count
      ∧ ∀ row ∈ rows, row.length = size := by
  induction count generalizing values with
  | zero =>
    have none_left : values = [] := by simpa using h
    subst none_left
    exact ⟨[], rfl, rfl, by simp⟩
  | succ count ih =>
    rw [Nat.succ_mul] at h
    have rest : (values.drop size).length = count * size := by
      rw [List.length_drop]
      omega
    obtain ⟨rows, flat, number, sizes⟩ := ih rest
    refine ⟨values.take size :: rows, by simp [flat], by simp [number], ?_⟩
    simp only [List.mem_cons, forall_eq_or_imp, List.length_take]
    exact ⟨by omega, sizes⟩

/-! ## Stores that hold rows -/

/-- Offsets of so many states into so many elements. -/
structure Delimits (offsets : List Nat) (numStates numElements : Nat) : Prop where
  length : offsets.length = numStates + 1
  first : offsets.head? = some 0
  rising : offsets.Pairwise (· ≤ ·)
  last : offsets.getLast? = some numElements

/-- The addressing cuts between states of these lengths. -/
def Addressing.Cuts {w : OffsetWidth} : Addressing w → List Nat → Prop
  | grouped k, lengths => ∀ length ∈ lengths, length = k
  | indexed offsets, lengths => offsets.values.map (·.val) = runningSums 0 lengths

theorem sum_take_of_forall_eq {lengths : List Nat} {k i : Nat} (h : ∀ n ∈ lengths, n = k)
    (hi : i ≤ lengths.length) : (lengths.take i).sum = i * k := by
  have constant : lengths.take i = List.replicate i k :=
    List.eq_replicate_iff.2 ⟨List.length_take_of_le hi, fun n m => h n (List.mem_of_mem_take m)⟩
  rw [constant, List.sum_replicate_nat]

theorem Addressing.Cuts.bounds? {w : OffsetWidth} {a : Addressing w} {lengths : List Nat}
    (cuts : a.Cuts lengths) {i : Nat} (h : i < lengths.length) :
    a.bounds? i = some ((lengths.take i).sum, (lengths.take (i + 1)).sum) := by
  cases a with
  | grouped k =>
    rw [Addressing.bounds?, sum_take_of_forall_eq cuts (Nat.le_of_lt h),
      sum_take_of_forall_eq cuts h]
  | indexed offsets =>
    have at_ (j : Nat) (hj : j ≤ lengths.length) :
        (offsets.values[j]?).map (·.val) = some (lengths.take j).sum := by
      rw [← List.getElem?_map, cuts, getElem?_runningSums 0 lengths hj, Nat.zero_add]
    obtain ⟨start, here, start_eq⟩ := Option.map_eq_some_iff.1 (at_ i (Nat.le_of_lt h))
    obtain ⟨stop, after, stop_eq⟩ := Option.map_eq_some_iff.1 (at_ (i + 1) h)
    simp only [Addressing.bounds?, here, after, start_eq, stop_eq]

namespace Store

variable {P : Packing} {w : OffsetWidth}

/-- The elements of a store are the rows one after the other, cut where the rows end. -/
structure Holds (store : Store P w) (rows : List (List P.Element)) : Prop where
  elements : store.elements.values = rows.flatten
  numStates : store.numStates = rows.length
  arity : store.addressing.arity = P.arity
  cuts : store.addressing.Cuts (rows.map List.length)

variable {store : Store P w} {rows : List (List P.Element)}

theorem slice_flatten {α : Type} (rows : List (List α)) {i : Nat} (h : i < rows.length) :
    slice rows.flatten ((rows.map List.length).take i).sum
      ((rows.map List.length).take (i + 1)).sum = rows[i] := by
  have step : ((rows.map List.length).take (i + 1)).sum
      = ((rows.map List.length).take i).sum + rows[i].length := by
    rw [List.take_succ_eq_append_getElem (by simpa using h), List.sum_append]
    simp
  have inside : ((rows.map List.length).take (i + 1)).sum ≤ rows.flatten.length := by
    rw [List.length_flatten, ← List.sum_take_add_sum_drop (rows.map List.length) (i + 1)]
    exact Nat.le_add_right _ _
  rw [slice, if_pos ⟨by omega, inside⟩, ← List.drop_take,
    List.drop_take_succ_flatten_eq_getElem rows i h]

theorem Holds.numElements (holds : store.Holds rows) :
    store.numElements = (rows.map List.length).sum := by
  rw [Store.numElements, holds.elements, List.length_flatten]

theorem Holds.windowAt (holds : store.Holds rows) {i : Nat} (h : i < rows.length) :
    store.windowAt i = rows[i] := by
  unfold Store.windowAt
  rw [holds.cuts.bounds? (by simpa using h), holds.elements]
  exact slice_flatten rows h

/-- The windows of a store are its rows. -/
theorem Holds.map_windowAt (holds : store.Holds rows) :
    (List.range store.numStates).map store.windowAt = rows := by
  apply List.ext_getElem
  · rw [List.length_map, List.length_range, holds.numStates]
  · intro i _ below
    rw [List.getElem_map, List.getElem_range, holds.windowAt below]

theorem Holds.windowAt_mem (holds : store.Holds rows) {i : Nat} (below : i < store.numStates) :
    store.windowAt i ∈ rows := by
  rw [← holds.map_windowAt]
  exact List.mem_map_of_mem (List.mem_range.2 below)

theorem sum_lt_of_cuts {offsets : Region (Offset w)} {lengths : List Nat}
    (cuts : (Addressing.indexed offsets).Cuts lengths) : lengths.sum < 256 ^ w.bytes := by
  have last : (runningSums 0 lengths).getLast? = some lengths.sum := by
    rw [getLast?_runningSums_eq_sum, Nat.zero_add]
  have member := List.mem_of_getLast? last
  rw [← show offsets.values.map (·.val) = runningSums 0 lengths from cuts] at member
  obtain ⟨offset, _, value⟩ := List.mem_map.1 member
  rw [← value]
  exact offset.isLt

/-- Rows that a store holds have the size that its packing demands. -/
theorem Holds.length_eq {k : Nat} (holds : store.Holds rows) (fixed : P.arity = .fixed k) :
    ∀ length ∈ rows.map List.length, length = k := by
  have arity := holds.arity
  have cuts := holds.cuts
  rw [fixed] at arity
  cases addressing : store.addressing with
  | grouped n =>
    rw [addressing] at arity cuts
    cases arity
    exact cuts
  | indexed offsets =>
    rw [addressing] at arity
    cases arity

/-- The rows of a store with offsets can be addressed. -/
theorem Holds.sum_lt (holds : store.Holds rows) (indexed : P.arity = .indexed) :
    (rows.map List.length).sum < 256 ^ w.bytes := by
  have arity := holds.arity
  have cuts := holds.cuts
  rw [indexed] at arity
  cases addressing : store.addressing with
  | grouped n =>
    rw [addressing] at arity
    cases arity
  | indexed offsets =>
    rw [addressing] at cuts
    exact sum_lt_of_cuts cuts

/-- The elements of states of one size. -/
theorem Holds.numElements_of_grouped {k : Nat} (holds : store.Holds rows)
    (grouped : store.addressing = .grouped k) : store.numElements = k * store.numStates := by
  have cuts := holds.cuts
  rw [grouped] at cuts
  have sum := sum_take_of_forall_eq cuts (Nat.le_refl _)
  rw [List.take_length, List.length_map] at sum
  rw [holds.numElements, holds.numStates, sum, Nat.mul_comm]

theorem Holds.delimits_of_indexed {offsets : Region (Offset w)} (holds : store.Holds rows)
    (indexed : store.addressing = .indexed offsets) :
    Delimits (offsets.values.map (·.val)) store.numStates store.numElements := by
  have cuts := holds.cuts
  rw [indexed] at cuts
  change offsets.values.map (·.val) = _ at cuts
  rw [cuts, holds.numStates, holds.numElements, ← List.length_map (f := List.length)]
  refine ⟨length_runningSums _ _, head?_runningSums _ _, pairwise_runningSums _ _, ?_⟩
  rw [getLast?_runningSums_eq_sum, Nat.zero_add]

end Store
end Transducer
