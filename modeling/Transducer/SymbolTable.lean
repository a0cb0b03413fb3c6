import Transducer.Source
/-!
# Symbol tables

A symbol table gives texts to the labels of a machine: a list of symbols with their keys, in
the order in which they were added, no symbol twice. New symbols take the next available key or
one of the caller's choice; a later symbol under the same key hides the earlier one. The file
form is a magic number, the name, the next key and the entries in order. Main statements: adding
a known symbol changes nothing, and a new one is put at the end.
-/
namespace Transducer

structure SymbolTable where
  name : String
  entries : List (String × Int64)
  availableKey : Int64
  deriving DecidableEq, Repr

namespace SymbolTable

def empty (name : String) : SymbolTable := ⟨name, [], 0⟩

/-- The number that opens the file form. -/
def magic : Int32 := 2125658996

def size (table : SymbolTable) : Nat := table.entries.length

/-- The key of a symbol. -/
def findKey? (table : SymbolTable) (symbol : String) : Option Int64 :=
  (table.entries.find? fun entry => entry.1 == symbol).map (·.2)

/-- The symbol added last under a key. -/
def findSymbol? (table : SymbolTable) (key : Int64) : Option String :=
  (table.entries.reverse.find? fun entry => entry.2 == key).map (·.1)

/-- Puts an entry at the end; the next available key stays above it. -/
def push (table : SymbolTable) (symbol : String) (key : Int64) : SymbolTable :=
  { table with
    entries := table.entries ++ [(symbol, key)]
    availableKey := if table.availableKey ≤ key then key + 1 else table.availableKey }

/-- Adds a symbol under a key, unless it is there already; gives the key it has then. -/
def addWithKey (table : SymbolTable) (symbol : String) (key : Int64) : Int64 × SymbolTable :=
  match table.findKey? symbol with
  | some existing => (existing, table)
  | none => (key, table.push symbol key)

/-- Adds a symbol under the next available key, unless it is there already. -/
def add (table : SymbolTable) (symbol : String) : Int64 × SymbolTable :=
  table.addWithKey symbol table.availableKey

/-- Whether two tables have the same name and the same entries in the same order. -/
def same (table other : SymbolTable) : Bool :=
  table.name == other.name && table.entries == other.entries

/-- The file form. -/
def segments (table : SymbolTable) : List Segment :=
  [.value Layout.int32 magic] ++ Segment.text table.name
    ++ [.value Layout.int64 table.availableKey, .value Layout.int64 (Int64.ofNat table.size)]
    ++ table.entries.flatMap fun entry =>
        Segment.text entry.1 ++ [.value Layout.int64 entry.2]

/-- Reads entries onto the end of a table; neither a symbol nor a key may come twice. -/
def readEntries : Nat → SymbolTable → Reading SymbolTable
  | 0, table => pure table
  | count + 1, table => do
    let symbol ← Reading.text
    let key ← Reading.value Layout.int64
    Reading.require ((table.findKey? symbol).isNone && (table.findSymbol? key).isNone)
      (.badSymbols (.duplicate symbol key))
    readEntries count (table.push symbol key)

/-- Reads the file form. The next available key is the larger of the one found and the first
above all keys. -/
def read : Reading SymbolTable := do
  let found ← Reading.value Layout.int32
  Reading.require (found == magic) (.badSymbols (.magic found))
  let name ← Reading.text
  let available ← Reading.value Layout.int64
  let count ← Reading.value Layout.int64
  Reading.require (0 ≤ count) (.badSymbols (.negativeCount count))
  let table ← readEntries count.toInt.toNat (empty name)
  return { table with availableKey := max table.availableKey available }

theorem addWithKey_of_known {table : SymbolTable} {symbol : String} {existing : Int64}
    (h : table.findKey? symbol = some existing) (key : Int64) :
    table.addWithKey symbol key = (existing, table) := by
  simp [addWithKey, h]

theorem addWithKey_of_new {table : SymbolTable} {symbol : String}
    (h : table.findKey? symbol = none) (key : Int64) :
    table.addWithKey symbol key = (key, table.push symbol key) := by
  simp [addWithKey, h]

end SymbolTable
end Transducer
