import Transducer.Proofs.Consumption
import Transducer.Proofs.PackedView
import Transducer.Proofs.StoreOfElements
/-!
# How packed machines come about

A packed machine is packed from a view, gathered from elements, read from a file or left by a
failure, and may then be given other elements or symbol tables. Whatever its history, its store
holds rows, and it counts no more arcs than its elements or than a header can tell
(`Obtained.holds`).
-/
namespace Transducer

open Reading

namespace Store

variable {P : Packing} {w : OffsetWidth}

/-- An array that is read has the length asked for. -/
theorem length_of_region {α : Type} {L : Layout α} {length : Nat} {mode : ReadMode}
    {source after : Source} {found : Region α}
    (h : region L length mode source = (.ok found, after)) : found.values.length = length := by
  rcases copy_or_borrow_of_region h with copied | ⟨bytes, position, _, lent⟩
  · unfold copy at copied
    obtain ⟨_, _, _, copied⟩ := exists_of_bind_eq_ok copied
    obtain ⟨_, _, _, copied⟩ := exists_of_bind_eq_ok copied
    cases copied
    exact L.length_decodeArray length _
  · rw [(eq_of_borrow lent).2]
    exact L.length_decodeArray length _

/-- Offsets that pass their check, and the elements up to the last one, are cut into rows. -/
theorem exists_rows_of_checkOffsets {α : Type} {offsets : List (Offset w)} {values : List α}
    {numStates : Nat} (checked : checkOffsets offsets = .ok ())
    (number : offsets.length = numStates + 1)
    (last : values.length = match offsets.getLast? with | some last => last.val | none => 0) :
    ∃ rows : List (List α), rows.flatten = values ∧ rows.length = numStates
      ∧ offsets.map (·.val) = runningSums 0 (rows.map List.length) := by
  unfold checkOffsets at checked
  split at checked
  · cases checked
  · rename_i rising
    split at checked
    · cases checked
    · rename_i first
      cases offsets with
      | nil => cases number
      | cons start stops =>
        have zero : start.val = 0 := by simpa using first
        rw [Bool.not_eq_true, Bool.not_eq_false'] at rising
        rw [List.map_cons, zero] at rising
        have stop : (0 :: stops.map (·.val)).getLast? = some (0 + values.length) := by
          rw [← zero, ← List.map_cons, List.getLast?_map, last, zero, Nat.zero_add]
          cases there : (start :: stops).getLast? with
          | none => cases (List.getLast?_eq_none_iff.1 there)
          | some offset => rfl
        obtain ⟨rows, flat, sums⟩ := exists_rows_of_neverFalls rising stop
        refine ⟨rows, flat, ?_, by rw [List.map_cons, zero, sums]⟩
        have lengths := congrArg List.length sums
        rw [length_runningSums, List.length_map, List.length_cons, List.length_map] at lengths
        rw [List.length_cons] at number
        omega

/-- A store that is read holds rows, and its header told the count of its arcs. -/
theorem holds_of_read {header : Header} {mode : ReadMode} {source after : Source}
    {store : Store P w} (h : read P w header mode source = (.ok store, after)) :
    ∃ rows, store.Holds rows ∧ store.numArcs < fileLimit := by
  have counted : header.numArcs.toInt.toNat < fileLimit := by
    have top := header.numArcs.toInt_lt
    unfold fileLimit
    omega
  unfold read readAddressing at h
  obtain ⟨_, _, _, h⟩ := exists_of_bind_eq_ok h
  obtain ⟨_, _, _, h⟩ := exists_of_bind_eq_ok h
  obtain ⟨⟨addressing, numElements⟩, _, ways, h⟩ := exists_of_bind_eq_ok h
  obtain ⟨elements, _, array, h⟩ := exists_of_bind_eq_ok h
  cases h
  have length := length_of_region array
  cases arity : P.arity with
  | indexed =>
    rw [arity] at ways
    obtain ⟨_, _, _, ways⟩ := exists_of_bind_eq_ok ways
    obtain ⟨offsets, _, table, ways⟩ := exists_of_bind_eq_ok ways
    obtain ⟨_, _, checked, ways⟩ := exists_of_bind_eq_ok ways
    obtain ⟨_, _, _, ways⟩ := exists_of_bind_eq_ok ways
    cases ways
    obtain ⟨rows, flat, number, sums⟩ := exists_rows_of_checkOffsets (outcome_of_lift checked).1
      (length_of_region table) length
    exact ⟨rows, ⟨flat.symm, number.symm, arity.symm, sums⟩, counted⟩
  | fixed k =>
    rw [arity] at ways
    obtain ⟨_, _, _, ways⟩ := exists_of_bind_eq_ok ways
    obtain ⟨_, _, _, ways⟩ := exists_of_bind_eq_ok ways
    cases ways
    rw [Nat.mul_comm] at length
    obtain ⟨rows, flat, number, sizes⟩ := exists_rows_of_length length
    refine ⟨rows, ⟨flat.symm, number.symm, arity.symm, ?_⟩, counted⟩
    intro size member
    obtain ⟨row, here, rfl⟩ := List.mem_map.1 member
    exact sizes row here

theorem holds_empty (P : Packing) (w : OffsetWidth) : (Store.empty P w).Holds [] := by
  refine ⟨rfl, rfl, ?_, ?_⟩
  · unfold Store.empty
    cases P.arity <;> rfl
  · unfold Store.empty
    cases P.arity with
    | fixed k => exact List.forall_mem_nil _
    | indexed => rfl

/-- The ways in which stores come about. -/
inductive Built : Store P w → Prop where
  | empty : Built (Store.empty P w)
  | packed {payload : P.Payload} {v : View} {store : Store P w}
      (made : ofView P w payload v = .ok store) : Built store
  | gathered {payload : P.Payload} {elements : List P.Element} {store : Store P w}
      (made : ofElements P w payload elements = .ok store) : Built store
  | read {header : Header} {mode : ReadMode} {source after : Source} {store : Store P w}
      (made : Store.read P w header mode source = (.ok store, after)) : Built store

/-- However a store came about, it holds rows and bounds its count of arcs. -/
theorem Built.holds {store : Store P w} (built : store.Built) :
    ∃ rows, store.Holds rows
      ∧ (store.numArcs ≤ store.elements.values.length ∨ store.numArcs < fileLimit) := by
  cases built with
  | empty => exact ⟨[], holds_empty P w, Or.inl (Nat.zero_le _)⟩
  | packed made =>
    rename_i payload v
    obtain ⟨holds, _, numArcs⟩ := holds_of_ofView made
    refine ⟨_, holds, Or.inl ?_⟩
    have total := View.sum_entryCounts v
    rw [holds.elements, List.length_flatten, map_length_rowsOf, numArcs]
    omega
  | gathered made =>
    obtain ⟨rows, holds, numArcs⟩ := holds_of_ofElements made
    exact ⟨rows, holds, Or.inl numArcs⟩
  | read made =>
    obtain ⟨rows, holds, numArcs⟩ := holds_of_read made
    exact ⟨rows, holds, Or.inr numArcs⟩

end Store

namespace Compact

variable {F : Format}

/-- The ways in which packed machines come about. -/
inductive Obtained : Compact F → Prop where
  | packed {payload : F.packing.Payload} {v : View} {c : Compact F}
      (made : ofView? payload v = .ok c) : Obtained c
  | gathered {payload : F.packing.Payload} {elements : List F.packing.Element} {c : Compact F}
      (made : ofElements? payload elements = .ok c) : Obtained c
  | failed (payload : F.packing.Payload) (cause : Error) : Obtained (ofError payload cause)
  | replaced {c d : Compact F} {elements : List F.packing.Element} (before : Obtained c)
      (made : c.setElements elements = .ok d) : Obtained d
  | read {name : String} {mode : ReadMode} {source after : Source} {c : Compact F}
      (made : Compact.read F name mode source = (.ok c, after)) : Obtained c
  | inputSymbols {c : Compact F} (before : Obtained c) (table : Option SymbolTable) :
      Obtained (c.setInputSymbols table)
  | outputSymbols {c : Compact F} (before : Obtained c) (table : Option SymbolTable) :
      Obtained (c.setOutputSymbols table)
  | cacheOptions {c : Compact F} (before : Obtained c) (options : CacheOptions) :
      Obtained (c.withCacheOptions options)
  | expanded {c : Compact F} (before : Obtained c) (s : StateId) : Obtained (c.expand s).2

/-- A store that holds rows, with a count of arcs that its elements or a header bound. -/
def HoldsRows (c : Compact F) : Prop :=
  ∃ rows, c.store.Holds rows
    ∧ (c.store.numArcs ≤ c.store.elements.values.length ∨ c.store.numArcs < fileLimit)

theorem store_expand (c : Compact F) (s : StateId) : (c.expand s).2.store = c.store := by
  unfold expand
  cases c.cache.get? s <;> rfl

theorem Obtained.built {c : Compact F} (obtained : c.Obtained) : c.store.Built := by
  induction obtained with
  | packed made =>
    obtain ⟨_, store, stored, rfl⟩ := ofView?_eq_ok_iff.1 made
    exact .packed stored
  | gathered made => exact .gathered (frame_of_ofElements made).1
  | failed payload cause => exact .empty
  | replaced before made ih => exact .gathered (frame_of_setElements made).1
  | read made =>
    unfold Compact.read at made
    obtain ⟨_, _, _, made⟩ := exists_of_bind_eq_ok made
    obtain ⟨_, _, _, made⟩ := exists_of_bind_eq_ok made
    obtain ⟨_, _, _, made⟩ := exists_of_bind_eq_ok made
    obtain ⟨store, _, stored, made⟩ := exists_of_bind_eq_ok made
    cases made
    exact .read stored
  | inputSymbols before table ih => exact ih
  | outputSymbols before table ih => exact ih
  | cacheOptions before options ih => exact ih
  | expanded before s ih =>
    rw [store_expand]
    exact ih

theorem Obtained.holds {c : Compact F} (obtained : c.Obtained) : c.HoldsRows :=
  obtained.built.holds

end Compact
end Transducer
