import Mathlib.Data.List.Nodup
import Transducer.Header
import Transducer.Proofs.Consumption
/-!
# Symbol tables in files, both ways

The tables that can be built or read have distinct symbols, and an available key above all their
keys as long as these leave room for one more (`Reachable.wellKept`). A file names every entry
with its key, which the reader takes only when both are new to it, so tables come back when their
keys are distinct too. Main statement: such a table reads back from its file form, the available
key included (`undoes_read`).
-/
namespace Transducer

open Segment Reading

namespace SymbolTable

/-- The tables that are built by adding symbols, or read from files. -/
inductive Reachable : SymbolTable → Prop where
  | empty (name : String) : Reachable (empty name)
  | addWithKey {table : SymbolTable} (before : Reachable table) (symbol : String) (key : Int64) :
      Reachable (table.addWithKey symbol key).2
  | read {table : SymbolTable} {source after : Source} (h : read source = (.ok table, after)) :
      Reachable table

def symbols (table : SymbolTable) : List String := table.entries.map (·.1)

def keys (table : SymbolTable) : List Int64 := table.entries.map (·.2)

/-- Every key leaves room for one above it. -/
def KeysBounded (table : SymbolTable) : Prop := ∀ key ∈ table.keys, key < Int64.maxValue

instance (table : SymbolTable) : Decidable table.KeysBounded :=
  -- not by going through all the keys that there are
  List.decidableBAll (· < Int64.maxValue) table.keys

/-- Distinct symbols, and an available key above all keys if these are bounded. -/
structure WellKept (table : SymbolTable) : Prop where
  symbols : table.symbols.Nodup
  available : table.KeysBounded → 0 ≤ table.availableKey ∧ ∀ key ∈ table.keys,
    key < table.availableKey

theorem findKey?_eq_none_iff {table : SymbolTable} {symbol : String} :
    table.findKey? symbol = none ↔ symbol ∉ table.symbols := by
  unfold findKey? symbols
  rw [Option.map_eq_none_iff, List.find?_eq_none]
  simp only [beq_iff_eq, List.mem_map, not_exists, not_and]

theorem findSymbol?_eq_none_iff {table : SymbolTable} {key : Int64} :
    table.findSymbol? key = none ↔ key ∉ table.keys := by
  unfold findSymbol? keys
  rw [Option.map_eq_none_iff, List.find?_eq_none]
  simp only [List.mem_reverse, beq_iff_eq, List.mem_map, not_exists, not_and]

theorem symbols_push (table : SymbolTable) (symbol : String) (key : Int64) :
    (table.push symbol key).symbols = table.symbols ++ [symbol] := by
  simp [symbols, push]

theorem keys_push (table : SymbolTable) (symbol : String) (key : Int64) :
    (table.push symbol key).keys = table.keys ++ [key] := by
  simp [keys, push]

theorem nodup_keys_push {table : SymbolTable} (distinct : table.keys.Nodup) {key : Int64}
    (free : key ∉ table.keys) (symbol : String) : (table.push symbol key).keys.Nodup := by
  rw [keys_push, ← List.concat_eq_append]
  exact distinct.concat free

theorem toInt_add_one {key : Int64} (room : key < Int64.maxValue) :
    (key + 1).toInt = key.toInt + 1 := by
  rw [Int64.lt_iff_toInt_lt, Int64.toInt_maxValue] at room
  have low := key.le_toInt
  rw [Int64.toInt_add, Int64.toInt_one, Int.bmod_eq_of_le] <;> omega

/-- The available key rises to just above a key that it was not above. -/
theorem availableKey_push (table : SymbolTable) (symbol : String) {key : Int64}
    (room : key < Int64.maxValue) : (table.push symbol key).availableKey.toInt
      = if table.availableKey.toInt ≤ key.toInt then key.toInt + 1
        else table.availableKey.toInt := by
  unfold push
  simp only
  by_cases above : table.availableKey ≤ key
  · rw [if_pos above, if_pos (Int64.le_iff_toInt_le.1 above), toInt_add_one room]
  · rw [if_neg above, if_neg (fun le => above (Int64.le_iff_toInt_le.2 le))]

theorem WellKept.push {table : SymbolTable} (kept : table.WellKept) {symbol : String}
    {key : Int64} (new : symbol ∉ table.symbols) : (table.push symbol key).WellKept := by
  constructor
  · rw [symbols_push, ← List.concat_eq_append]
    exact kept.symbols.concat new
  · intro bounded
    unfold KeysBounded at bounded
    rw [keys_push, List.forall_mem_append, List.forall_mem_singleton] at bounded
    obtain ⟨nonneg, below⟩ := kept.available bounded.1
    have rise := availableKey_push table symbol bounded.2
    rw [Int64.le_iff_toInt_le, Int64.toInt_zero] at nonneg ⊢
    rw [keys_push, List.forall_mem_append, List.forall_mem_singleton]
    refine ⟨?_, fun other member => ?_, ?_⟩
    · split at rise <;> omega
    · have less := below other member
      rw [Int64.lt_iff_toInt_lt] at less ⊢
      split at rise <;> omega
    · rw [Int64.lt_iff_toInt_lt]
      split at rise <;> omega

theorem wellKept_empty (name : String) : (empty name).WellKept :=
  ⟨List.nodup_nil, fun _ => ⟨Int64.le_refl 0, List.forall_mem_nil _⟩⟩

theorem WellKept.readEntries {count : Nat} {table after : SymbolTable} {source rest : Source}
    (kept : table.WellKept) (h : readEntries count table source = (.ok after, rest)) :
    after.WellKept := by
  induction count generalizing table source with
  | zero =>
    cases h
    exact kept
  | succ count ih =>
    unfold SymbolTable.readEntries at h
    obtain ⟨symbol, _, _, h⟩ := exists_of_bind_eq_ok h
    obtain ⟨key, _, _, h⟩ := exists_of_bind_eq_ok h
    obtain ⟨_, _, checked, h⟩ := exists_of_bind_eq_ok h
    obtain ⟨fresh, _⟩ := condition_of_require checked
    rw [Bool.and_eq_true, Option.isNone_iff_eq_none, findKey?_eq_none_iff] at fresh
    exact ih (kept.push fresh.1) h

/-- Raising the available key keeps a table well kept. -/
theorem WellKept.raise {table : SymbolTable} (kept : table.WellKept) (available : Int64) :
    WellKept { table with availableKey := max table.availableKey available } := by
  refine ⟨kept.symbols, fun bounded => ?_⟩
  obtain ⟨nonneg, below⟩ := kept.available bounded
  have rise : table.availableKey ≤ max table.availableKey available := by
    change _ ≤ if table.availableKey ≤ available then available else table.availableKey
    split
    · assumption
    · exact Int64.le_refl _
  exact ⟨Int64.le_trans nonneg rise, fun key member =>
    Int64.lt_of_lt_of_le (below key member) rise⟩

theorem Reachable.wellKept {table : SymbolTable} (reachable : table.Reachable) :
    table.WellKept := by
  induction reachable with
  | empty name => exact wellKept_empty name
  | addWithKey before symbol key ih =>
    unfold SymbolTable.addWithKey
    split
    · exact ih
    · rename_i unknown
      exact ih.push (findKey?_eq_none_iff.1 unknown)
  | read h =>
    unfold SymbolTable.read at h
    obtain ⟨_, _, _, h⟩ := exists_of_bind_eq_ok h
    obtain ⟨_, _, _, h⟩ := exists_of_bind_eq_ok h
    obtain ⟨name, _, _, h⟩ := exists_of_bind_eq_ok h
    obtain ⟨available, _, _, h⟩ := exists_of_bind_eq_ok h
    obtain ⟨_, _, _, h⟩ := exists_of_bind_eq_ok h
    obtain ⟨_, _, _, h⟩ := exists_of_bind_eq_ok h
    obtain ⟨table, _, entries, h⟩ := exists_of_bind_eq_ok h
    cases h
    exact ((wellKept_empty name).readEntries entries).raise available

/-! ## Reading back -/

/-- A table with more entries behind its own. -/
def pushAll (table : SymbolTable) (entries : List (String × Int64)) : SymbolTable :=
  entries.foldl (fun table entry => table.push entry.1 entry.2) table

theorem pushAll_eq (table : SymbolTable) (entries : List (String × Int64)) :
    table.pushAll entries = { table with
      entries := table.entries ++ entries
      availableKey := (table.pushAll entries).availableKey } := by
  induction entries generalizing table with
  | nil =>
    rw [List.append_nil]
    rfl
  | cons entry entries ih =>
    change (table.push entry.1 entry.2).pushAll entries = _
    rw [ih]
    simp [push, pushAll]

/-- No available key rises above a bound that is above all keys. -/
theorem availableKey_pushAll_le {table : SymbolTable} {entries : List (String × Int64)}
    {bound : Int64} (start : table.availableKey ≤ bound)
    (below : ∀ entry ∈ entries, entry.2 < bound) :
    (table.pushAll entries).availableKey ≤ bound := by
  induction entries generalizing table with
  | nil => exact start
  | cons entry entries ih =>
    rw [List.forall_mem_cons] at below
    refine ih (?_ : (table.push entry.1 entry.2).availableKey ≤ bound) below.2
    have less := Int64.lt_iff_toInt_lt.1 below.1
    have room : entry.2 < Int64.maxValue :=
      Int64.lt_of_lt_of_le below.1 (Int64.le_iff_toInt_le.2 bound.toInt_le)
    have rise := availableKey_push table entry.1 room
    rw [Int64.le_iff_toInt_le] at start ⊢
    split at rise <;> omega

theorem undoes_readEntries (lends : Bool) (table : SymbolTable)
    (entries : List (String × Int64)) (symbols : (table.symbols ++ entries.map (·.1)).Nodup)
    (keys : (table.keys ++ entries.map (·.2)).Nodup) :
    (readEntries entries.length table).Undoes lends
      (entries.flatMap fun entry => Segment.text entry.1 ++ [.value Layout.int64 entry.2])
      (table.pushAll entries) := by
  induction entries generalizing table with
  | nil => exact undoes_pure table
  | cons entry entries ih =>
    obtain ⟨symbol, key⟩ := entry
    rw [List.map_cons, List.append_cons] at symbols keys
    have new_symbol : symbol ∉ table.symbols := fun known => by
      have apart := (List.nodup_append.1 (List.nodup_append.1 symbols).1).2.2
      exact apart symbol known symbol (List.mem_singleton_self symbol) rfl
    have new_key : key ∉ table.keys := fun known => by
      have apart := (List.nodup_append.1 (List.nodup_append.1 keys).1).2.2
      exact apart key known key (List.mem_singleton_self key) rfl
    have fresh : ((table.findKey? symbol).isNone && (table.findSymbol? key).isNone) = true := by
      rw [findKey?_eq_none_iff.2 new_symbol, findSymbol?_eq_none_iff.2 new_key]
      rfl
    rw [← symbols_push table symbol key] at symbols
    rw [← keys_push table symbol key] at keys
    rw [List.flatMap_cons, List.append_assoc]
    refine (undoes_text symbol).bind ((undoes_value Layout.int64 key).bind ?_)
    exact Undoes.require fresh (ih _ symbols keys)

/-- The entries of a table lie inside its file form. -/
theorem length_entries_le {entries : List (String × Int64)} {position : Nat} {bytes : List UInt8}
    (emitted : Emits position
      (entries.flatMap fun entry => Segment.text entry.1 ++ [.value Layout.int64 entry.2]) bytes) :
    entries.length ≤ bytes.length := by
  induction entries generalizing position bytes with
  | nil => exact Nat.zero_le _
  | cons entry entries ih =>
    rw [List.flatMap_cons] at emitted
    obtain ⟨front, more, rfl, first, later⟩ := emitted.split
    obtain ⟨_, key, rfl, _, value⟩ := first.split
    have rest := ih later
    have size := Layout.int64.size_pos
    rw [emits_value_iff.1 value, List.length_append, List.length_append,
      Layout.int64.length_encode, List.length_cons]
    omega

/-- The entries of a table, read onto the empty one, leave no more than the available key to be
raised. -/
theorem raised_pushAll {table : SymbolTable} (nonneg : 0 ≤ table.availableKey)
    (below : ∀ key ∈ table.keys, key < table.availableKey) :
    { (empty table.name).pushAll table.entries with
      availableKey := max ((empty table.name).pushAll table.entries).availableKey
        table.availableKey } = table := by
  have le : ((empty table.name).pushAll table.entries).availableKey ≤ table.availableKey :=
    availableKey_pushAll_le nonneg fun entry member => below entry.2 (List.mem_map_of_mem member)
  have top : max ((empty table.name).pushAll table.entries).availableKey table.availableKey
      = table.availableKey := if_pos le
  rw [top, pushAll_eq]
  rfl

theorem size_lt_of_emits {table : SymbolTable} {position : Nat} {bytes : List UInt8}
    (emitted : Emits position table.segments bytes) (short : position + bytes.length < fileLimit) :
    table.size < fileLimit := by
  obtain ⟨front, entries, rfl, _, inside⟩ := emitted.split
  have count := length_entries_le inside
  rw [List.length_append] at short
  unfold size
  omega

/-- The file form in the order in which it is read. -/
theorem segments_eq (table : SymbolTable) : table.segments
    = [Segment.value Layout.int32 magic] ++ (Segment.text table.name
      ++ ([Segment.value Layout.int64 table.availableKey]
      ++ ([Segment.value Layout.int64 (Int64.ofNat table.size)]
      ++ table.entries.flatMap fun entry =>
        Segment.text entry.1 ++ [Segment.value Layout.int64 entry.2]))) := by
  unfold SymbolTable.segments
  simp only [List.append_assoc, List.cons_append, List.nil_append]

/-- The number of entries of a table in a short file passes its check and is read as written. -/
theorem count_of_size_lt {table : SymbolTable} (small : table.size < fileLimit) :
    decide ((0 : Int64) ≤ Int64.ofNat table.size) = true
      ∧ (Int64.ofNat table.size).toInt.toNat = table.entries.length := by
  have count : (Int64.ofNat table.size).toInt = table.size := Int64.toInt_ofNat_of_lt small
  rw [decide_eq_true_eq, Int64.le_iff_toInt_le, count]
  exact ⟨Int.natCast_nonneg _, Int.toNat_natCast _⟩

/-- A table that can be built or read comes back, if its keys are distinct and bounded. -/
theorem undoes_read {lends : Bool} {table : SymbolTable} (reachable : table.Reachable)
    (distinct : table.keys.Nodup) (bounded : table.KeysBounded) :
    SymbolTable.read.Undoes lends table.segments table := by
  obtain ⟨symbols, available⟩ := reachable.wellKept
  obtain ⟨nonneg, below⟩ := available bounded
  -- the count is only known to be read as it was written once the file is known to be short
  intro position bytes emitted short
  obtain ⟨count_ok, count_back⟩ := count_of_size_lt (size_lt_of_emits emitted short)
  have entries := (undoes_readEntries lends (empty table.name) table.entries symbols
    distinct).map fun found =>
      { found with availableKey := max found.availableKey table.availableKey }
  rw [raised_pushAll nonneg below, ← count_back] at entries
  have read : SymbolTable.read.Undoes lends table.segments table := by
    rw [segments_eq]
    refine (undoes_value Layout.int32 magic).bind (Undoes.require (beq_self_eq_true magic) ?_)
    refine (undoes_text table.name).bind ((undoes_value Layout.int64 _).bind ?_)
    exact (undoes_value Layout.int64 _).bind (Undoes.require count_ok entries)
  exact read position bytes emitted short

end SymbolTable

namespace SymbolPair

/-- A table that is announced, or none, comes back. -/
theorem undoes_readOne {lends : Bool} {table : Option SymbolTable}
    (h : ∀ found ∈ table, SymbolTable.read.Undoes lends found.segments found) :
    (readOne table.isSome).Undoes lends (table.elim [] SymbolTable.segments) table := by
  cases table with
  | none => exact undoes_pure Option.none
  | some table => exact (h table rfl).map some

/-- The tables that a header announces come back. -/
theorem undoes_read {lends : Bool} {header : Header} {tables : SymbolPair}
    (input : header.hasInputSymbols = tables.input.isSome)
    (output : header.hasOutputSymbols = tables.output.isSome)
    (input_read : ∀ found ∈ tables.input, SymbolTable.read.Undoes lends found.segments found)
    (output_read : ∀ found ∈ tables.output, SymbolTable.read.Undoes lends found.segments found) :
    (SymbolPair.read header).Undoes lends tables.segments tables := by
  unfold SymbolPair.read
  rw [input, output]
  exact (undoes_readOne input_read).bind
    ((undoes_readOne output_read).map (SymbolPair.mk tables.input))

end SymbolPair
end Transducer
