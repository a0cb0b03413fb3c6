import Transducer.Proofs.Consumption
import Transducer.Proofs.StoreRows
/-!
# Stores in files, both ways

The arrays of a store read back from its file form. An array is borrowed when the file is aligned,
borrowing is asked for and the source lends its bytes: the padding in front of it then starts it at
a multiple of every alignment. Main statement: a store that holds rows comes back under a header
with its counts (`undoes_read`).
-/
namespace Transducer

open Segment Reading

namespace Store

variable {α : Type} {lends : Bool}

/-- Whether arrays of a file are borrowed. -/
def borrows (aligned : Bool) (mode : ReadMode) (lends : Bool) : Bool :=
  aligned && decide (mode = .borrow) && lends

/-- A padding starts an array at a multiple of every alignment. -/
theorem padding_fileAlignment_mod (L : Layout α) (position : Nat) :
    (position + padding position fileAlignment) % L.alignment = 0 := by
  have multiple : fileAlignment ∣ position + padding position fileAlignment :=
    Nat.dvd_of_mod_eq_zero (padding_aligns position (by decide))
  exact Nat.mod_eq_zero_of_dvd (Nat.dvd_trans L.alignment_dvd multiple)

/-- A stream is copied from, however its bytes are asked for. -/
theorem undoes_borrow_of_stream (L : Layout α) (values : List α) :
    (region L values.length .borrow).Undoes false [.array L values] (Region.owned values) := by
  intro position bytes emitted short source rest ahead
  have copied := undoes_copy L values position bytes emitted short source rest ahead
  cases ahead with
  | stream content => exact copied

/-- An array reads back behind its padding. -/
theorem undoes_padded (lends aligned : Bool) (mode : ReadMode) (L : Layout α)
    (values : List α) :
    (readPad aligned >>= fun _ => region L values.length (if aligned then mode else .copy)).Undoes
      lends (padSegments aligned ++ [.array L values])
      ⟨values, borrows aligned mode lends⟩ := by
  cases aligned with
  | false => exact undoes_copy L values
  | true =>
    cases mode with
    | copy => exact (undoes_align fileAlignment).bind (undoes_copy L values)
    | borrow =>
      cases lends with
      | false => exact (undoes_align fileAlignment).bind (undoes_borrow_of_stream L values)
      | true =>
        intro position out emitted short
        obtain ⟨pad, bytes, rfl, padded, array⟩ := emitted.split
        rw [List.length_append] at short
        refine (undoes_align fileAlignment position pad padded (by omega)).bind ?_
        cases padded with
        | aligned positive later =>
          cases later
          rw [emits_array_iff.1 array] at short ⊢
          rw [List.append_nil, List.length_replicate] at short ⊢
          refine yields_borrow L values (padding_fileAlignment_mod L position) ?_
          omega

variable {P : Packing} {w : OffsetWidth}

/-- The store with its arrays borrowed or owned. -/
def lent (store : Store P w) (borrowed : Bool) : Store P w :=
  { store with
    addressing := match store.addressing with
      | .grouped k => .grouped k
      | .indexed offsets => .indexed ⟨offsets.values, borrowed⟩
    elements := ⟨store.elements.values, borrowed⟩ }

theorem nonneg_ofNat {n : Nat} (small : n < fileLimit) :
    decide ((0 : Int64) ≤ Int64.ofNat n) = true := by
  have value : (Int64.ofNat n).toInt = n := Int64.toInt_ofNat_of_lt small
  rw [decide_eq_true_eq, Int64.le_iff_toInt_le, value]
  exact Int.natCast_nonneg n

theorem toNat_ofNat_int64 {n : Nat} (small : n < fileLimit) : (Int64.ofNat n).toInt.toNat = n := by
  rw [Int64.toInt_ofNat_of_lt small, Int.toNat_natCast]

/-- How many elements there are according to the offsets. -/
def lastOffset (offsets : List (Offset w)) : Nat :=
  match offsets.getLast? with
  | some last => last.val
  | none => 0

/-- Reading a store with offsets, array by array. -/
theorem read_of_indexed (arity : P.arity = .indexed) (header : Header) (mode : ReadMode) :
    read P w header mode = (require (0 ≤ header.numStates)
        (.badHeader (.stateCount header.numStates.toInt)) >>= fun _ =>
      require (0 ≤ header.numArcs) (.badHeader (.arcCount header.numArcs.toInt)) >>= fun _ =>
      (readPad header.isAligned >>= fun _ =>
        region (Offset.layout w) (header.numStates.toInt.toNat + 1) mode) >>= fun offsets =>
      lift (checkOffsets offsets.values) >>= fun _ =>
      (readPad header.isAligned >>= fun _ => region P.layout
        (lastOffset offsets.values) mode) >>= fun elements =>
      pure ⟨.indexed offsets, elements, header.start.toInt32, header.numStates.toInt.toNat,
        header.numArcs.toInt.toNat⟩) := by
  unfold read readAddressing
  simp only [arity, bind_assoc, pure_bind]
  rfl

theorem read_of_fixed {k : Nat} (arity : P.arity = .fixed k) (header : Header) (mode : ReadMode) :
    read P w header mode = (require (0 ≤ header.numStates)
        (.badHeader (.stateCount header.numStates.toInt)) >>= fun _ =>
      require (0 ≤ header.numArcs) (.badHeader (.arcCount header.numArcs.toInt)) >>= fun _ =>
      readPad header.isAligned >>= fun _ =>
      require (k * header.numStates.toInt.toNat < Region.byteLimit)
        (.badHeader (.groupCount header.numStates.toInt.toNat k)) >>= fun _ =>
      region P.layout (k * header.numStates.toInt.toNat) mode >>= fun elements =>
      pure ⟨.grouped k, elements, header.start.toInt32, header.numStates.toInt.toNat,
        header.numArcs.toInt.toNat⟩) := by
  unfold read readAddressing
  simp only [arity, bind_assoc, pure_bind]

theorem require_true {condition : Bool} (holds : condition = true) (cause : Error) :
    require condition cause = pure () := by
  rw [holds]
  rfl

/-- Offsets that cut between rows pass their check. -/
theorem checkOffsets_of_cuts {offsets : Region (Offset w)} {lengths : List Nat}
    (cuts : (Addressing.indexed offsets).Cuts lengths) :
    checkOffsets offsets.values = .ok () := by
  have sums : offsets.values.map (·.val) = runningSums 0 lengths := cuts
  have first := head?_runningSums 0 lengths
  unfold checkOffsets
  rw [sums, neverFalls_runningSums]
  rw [← sums, List.head?_map] at first
  cases front : offsets.values.head? with
  | none => rfl
  | some offset =>
    rw [front, Option.map_some, Option.some.injEq] at first
    have zero : (Option.any (fun offset => decide (offset.val ≠ 0)) (some offset)) = false := by
      rw [Option.any_some, decide_eq_false_iff_not, first]
      exact fun ne => ne rfl
    rw [zero]
    rfl

theorem last_of_cuts {offsets : Region (Offset w)} {lengths : List Nat}
    (cuts : (Addressing.indexed offsets).Cuts lengths) :
    lastOffset offsets.values = lengths.sum := by
  have sums : offsets.values.map (·.val) = runningSums 0 lengths := cuts
  have last := getLast?_runningSums_eq_sum 0 lengths
  rw [← sums, List.getLast?_map, Nat.zero_add] at last
  obtain ⟨offset, there, value⟩ := Option.map_eq_some_iff.1 last
  unfold lastOffset
  rw [there]
  exact value

/-- The elements of a store lie inside its file form. -/
theorem length_elements_le {store : Store P w} {aligned : Bool} {position : Nat}
    {bytes : List UInt8} (emitted : Emits position (store.segments aligned) bytes) :
    store.elements.values.length ≤ bytes.length := by
  obtain ⟨front, elements, rfl, _, array⟩ := emitted.split
  rw [emits_array_iff.1 array, List.length_append, Layout.length_encodeArray]
  have size := Nat.le_mul_of_pos_right store.elements.values.length P.layout.size_pos
  omega

/-- A header tells the start and the counts of a store. -/
structure Announced (header : Header) (start : StateId) (numStates numArcs : Nat) : Prop where
  start : header.start.toInt32 = start
  states_ok : decide (0 ≤ header.numStates) = true
  numStates : header.numStates.toInt.toNat = numStates
  arcs_ok : decide (0 ≤ header.numArcs) = true
  numArcs : header.numArcs.toInt.toNat = numArcs

theorem announced_of_eq {header : Header} {start : StateId} {numStates numArcs : Nat}
    (start_eq : header.start = start.toInt64) (states_eq : header.numStates = Int64.ofNat numStates)
    (states_small : numStates < fileLimit) (arcs_eq : header.numArcs = Int64.ofNat numArcs)
    (arcs_small : numArcs < fileLimit) : Announced header start numStates numArcs := by
  refine ⟨?_, ?_, ?_, ?_, ?_⟩
  · rw [start_eq]
    exact Int32.toInt32_toInt64 start
  · rw [states_eq]
    exact nonneg_ofNat states_small
  · rw [states_eq]
    exact toNat_ofNat_int64 states_small
  · rw [arcs_eq]
    exact nonneg_ofNat arcs_small
  · rw [arcs_eq]
    exact toNat_ofNat_int64 arcs_small

variable {header : Header} {start : StateId} {numStates numArcs : Nat}

theorem undoes_read_grouped {k : Nat} (arity : P.arity = .fixed k) (elements : Region P.Element)
    (announced : Announced header start numStates numArcs) (mode : ReadMode)
    (total : k * numStates = elements.values.length)
    (group_ok : k * numStates < Region.byteLimit) :
    (read P w header (if header.isAligned then mode else .copy)).Undoes lends
      (padSegments header.isAligned ++ [.array P.layout elements.values])
      ⟨.grouped k, ⟨elements.values, borrows header.isAligned mode lends⟩, start, numStates,
        numArcs⟩ := by
  have checked : decide (k * header.numStates.toInt.toNat < Region.byteLimit) = true := by
    rw [decide_eq_true_eq, announced.numStates]
    exact group_ok
  have array := undoes_padded lends header.isAligned mode P.layout elements.values
  rw [read_of_fixed arity, require_true announced.states_ok, require_true announced.arcs_ok,
    require_true checked]
  simp only [pure_bind]
  rw [← bind_assoc, announced.numStates, announced.numArcs, announced.start, total]
  exact array.map _

theorem undoes_read_indexed (lends : Bool) (arity : P.arity = .indexed)
    (offsets : Region (Offset w)) (elements : Region P.Element)
    (announced : Announced header start numStates numArcs) (mode : ReadMode) {lengths : List Nat}
    (cuts : (Addressing.indexed offsets).Cuts lengths) (number : lengths.length = numStates)
    (total : lengths.sum = elements.values.length) :
    (read P w header (if header.isAligned then mode else .copy)).Undoes lends
      ((padSegments header.isAligned ++ [.array (Offset.layout w) offsets.values])
        ++ (padSegments header.isAligned ++ [.array P.layout elements.values]))
      ⟨.indexed ⟨offsets.values, borrows header.isAligned mode lends⟩,
        ⟨elements.values, borrows header.isAligned mode lends⟩, start, numStates, numArcs⟩ := by
  have count : numStates + 1 = offsets.values.length := by
    have sums := congrArg List.length cuts
    rw [List.length_map, length_runningSums, number] at sums
    exact sums.symm
  have last := last_of_cuts cuts
  have ways := undoes_padded lends header.isAligned mode (Offset.layout w)
    offsets.values
  have array := undoes_padded lends header.isAligned mode P.layout elements.values
  rw [read_of_indexed arity, require_true announced.states_ok, require_true announced.arcs_ok]
  simp only [pure_bind]
  rw [announced.numStates, announced.numArcs, announced.start, count]
  refine ways.bind ?_
  rw [checkOffsets_of_cuts cuts, last, total]
  exact array.map _

/-- A store that holds rows comes back under a header that announces it. -/
theorem undoes_read {store : Store P w} {rows : List (List P.Element)} (holds : store.Holds rows)
    (announced : Announced header store.start store.numStates store.numArcs) (mode : ReadMode) :
    (read P w header (if header.isAligned then mode else .copy)).Undoes lends
      (store.segments header.isAligned) (store.lent (borrows header.isAligned mode lends)) := by
  have total : (rows.map List.length).sum = store.elements.values.length := by
    rw [holds.elements, List.length_flatten]
  have number : (rows.map List.length).length = store.numStates := by
    rw [List.length_map, holds.numStates]
  have arity := holds.arity
  have cuts := holds.cuts
  intro position bytes emitted short
  have inside := length_elements_le emitted
  have limit : fileLimit < Region.byteLimit := by decide
  obtain ⟨addressing, elements, start, numStates, numArcs⟩ := store
  simp only at total number inside
  cases addressing with
  | grouped k =>
    have full : k * numStates = elements.values.length := by
      have sum := sum_take_of_forall_eq cuts (Nat.le_refl _)
      rw [List.take_length, number] at sum
      rw [Nat.mul_comm, ← sum, total]
    have group_ok : k * numStates < Region.byteLimit := by omega
    exact undoes_read_grouped arity.symm elements announced mode full group_ok position bytes
      emitted short
  | indexed offsets =>
    have read := undoes_read_indexed lends arity.symm offsets elements announced mode
      cuts number total
    rw [← List.append_assoc] at read
    exact read position bytes emitted short

end Store
end Transducer
