import Transducer.Compact.File
import Transducer.Proofs.SymbolTables
/-!
# The keys of the symbols in a file

Which keys a file gives to its symbols. They are found along the reading of the tables that the
header announces, one behind the other, up to their end or to the first part that is refused: a key
counts as soon as its entry is taken, whatever becomes of the rest of the file. Main statement:
where a machine is read, these are the keys of its tables in order (`keysMet_of_read`).
-/
namespace Transducer

open Reading

namespace Reading

variable {α : Type}

/-- The keys that are met behind a reading, unless it is refused. -/
def thenKeys (x : Reading α) (keys : α → Source → List Int64) (source : Source) : List Int64 :=
  match x source with
  | (.ok a, after) => keys a after
  | (.error _, _) => []

theorem thenKeys_of_ok {x : Reading α} {source after : Source} {a : α}
    (read : x source = (.ok a, after)) (keys : α → Source → List Int64) :
    x.thenKeys keys source = keys a after := by
  unfold thenKeys
  rw [read]

end Reading

namespace SymbolTable

/-- The keys of entries that are put onto the end of a table. -/
def keysMetInEntries : Nat → SymbolTable → Source → List Int64
  | 0, _ => fun _ => []
  | count + 1, table =>
    Reading.text.thenKeys fun symbol =>
    (Reading.value Layout.int64).thenKeys fun key =>
    (Reading.require ((table.findKey? symbol).isNone && (table.findSymbol? key).isNone)
      (.badSymbols (.duplicate symbol key))).thenKeys fun _ after =>
    key :: keysMetInEntries count (table.push symbol key) after

/-- The keys of a table. -/
def keysMet : Source → List Int64 :=
  (Reading.value Layout.int32).thenKeys fun found =>
  (Reading.require (found == magic) (.badSymbols (.magic found))).thenKeys fun _ =>
  Reading.text.thenKeys fun name =>
  (Reading.value Layout.int64).thenKeys fun _ =>
  (Reading.value Layout.int64).thenKeys fun count =>
  (Reading.require (0 ≤ count) (.badSymbols (.negativeCount count))).thenKeys fun _ =>
  keysMetInEntries count.toInt.toNat (empty name)

/-- By induction on the entries that are left; the table has grown by those before. -/
theorem keys_of_readEntries {count : Nat} {table final : SymbolTable} {source after : Source}
    (read : readEntries count table source = (.ok final, after)) :
    final.keys = table.keys ++ keysMetInEntries count table source := by
  induction count generalizing table source with
  | zero =>
    cases read
    exact (List.append_nil _).symm
  | succ count ih =>
    unfold readEntries at read
    obtain ⟨symbol, _, text, read⟩ := exists_of_bind_eq_ok read
    obtain ⟨key, _, number, read⟩ := exists_of_bind_eq_ok read
    obtain ⟨_, _, fresh, read⟩ := exists_of_bind_eq_ok read
    unfold keysMetInEntries
    rw [thenKeys_of_ok text, thenKeys_of_ok number, thenKeys_of_ok fresh, ih read, keys_push,
      List.append_assoc, List.singleton_append]

theorem keysMet_of_read {table : SymbolTable} {source after : Source}
    (read : SymbolTable.read source = (.ok table, after)) : keysMet source = table.keys := by
  unfold SymbolTable.read at read
  obtain ⟨found, _, number, read⟩ := exists_of_bind_eq_ok read
  obtain ⟨_, _, matched, read⟩ := exists_of_bind_eq_ok read
  obtain ⟨name, _, text, read⟩ := exists_of_bind_eq_ok read
  obtain ⟨available, _, next, read⟩ := exists_of_bind_eq_ok read
  obtain ⟨count, _, counted, read⟩ := exists_of_bind_eq_ok read
  obtain ⟨_, _, nonneg, read⟩ := exists_of_bind_eq_ok read
  obtain ⟨final, _, entries, read⟩ := exists_of_bind_eq_ok read
  cases read
  unfold keysMet
  rw [thenKeys_of_ok number, thenKeys_of_ok matched, thenKeys_of_ok text, thenKeys_of_ok next,
    thenKeys_of_ok counted, thenKeys_of_ok nonneg]
  exact (keys_of_readEntries entries).symm

end SymbolTable

namespace SymbolPair

/-- The keys of the tables that are there, those of the input table first. -/
def keys (tables : SymbolPair) : List Int64 :=
  tables.input.elim [] SymbolTable.keys ++ tables.output.elim [] SymbolTable.keys

/-- The keys of one table, if there is one. -/
def keysMetInOne (there : Bool) : Source → List Int64 :=
  if there then SymbolTable.keysMet else fun _ => []

/-- The keys of the tables that a header announces; the second begins where the first ends. -/
def keysMet (h : Header) (source : Source) : List Int64 :=
  keysMetInOne h.hasInputSymbols source
    ++ (readOne h.hasInputSymbols).thenKeys (fun _ => keysMetInOne h.hasOutputSymbols) source

theorem keysMetInOne_of_read {there : Bool} {table : Option SymbolTable} {source after : Source}
    (read : readOne there source = (.ok table, after)) :
    keysMetInOne there source = table.elim [] SymbolTable.keys := by
  cases there with
  | false =>
    cases read
    rfl
  | true =>
    obtain ⟨found, _, read, done⟩ := exists_of_bind_eq_ok read
    cases done
    exact SymbolTable.keysMet_of_read read

theorem keysMet_of_read {h : Header} {tables : SymbolPair} {source after : Source}
    (read : SymbolPair.read h source = (.ok tables, after)) : keysMet h source = tables.keys := by
  unfold SymbolPair.read at read
  obtain ⟨input, _, first, read⟩ := exists_of_bind_eq_ok read
  obtain ⟨output, _, second, read⟩ := exists_of_bind_eq_ok read
  cases read
  unfold keysMet
  rw [thenKeys_of_ok first, keysMetInOne_of_read first, keysMetInOne_of_read second]
  rfl

end SymbolPair

namespace Compact

/-- The keys of the symbols in the file of a machine, met from its beginning on. -/
def keysMet (F : Format) (name : String) : Source → List Int64 :=
  (readHeader F name).thenKeys SymbolPair.keysMet

theorem keysMet_of_read {F : Format} {name : String} {mode : ReadMode} {source after : Source}
    {c : Compact F} (read : Compact.read F name mode source = (.ok c, after)) :
    keysMet F name source = c.symbols.keys := by
  unfold Compact.read at read
  obtain ⟨header, _, found, read⟩ := exists_of_bind_eq_ok read
  obtain ⟨symbols, _, tables, read⟩ := exists_of_bind_eq_ok read
  obtain ⟨payload, _, extra, read⟩ := exists_of_bind_eq_ok read
  obtain ⟨store, _, stored, read⟩ := exists_of_bind_eq_ok read
  cases read
  unfold keysMet
  rw [thenKeys_of_ok found]
  exact SymbolPair.keysMet_of_read tables

end Compact
end Transducer
