import Transducer.SymbolTable
/-!
# File headers

Every file opens with a magic number, a version, flags, the names of the machine type and the
arc type, the trait word, the start state and the counts of states and arcs. The symbol tables
that the flags announce follow. Main statement: the flags of a header are those of its word.
-/
namespace Transducer

structure Header where
  typeName : String
  arcName : String
  version : Int32
  flags : UInt32
  properties : UInt64
  start : Int64
  numStates : Int64
  numArcs : Int64
  deriving DecidableEq, Repr

namespace Header

/-- The number that opens a file. -/
def magic : UInt32 := 0x7EB2FDD6

/-- Arrays are padded to `fileAlignment`. -/
def alignedFlag : UInt32 := 1

/-- An input symbol table follows. -/
def inputSymbolsFlag : UInt32 := 2

/-- An output symbol table follows, after the input table. -/
def outputSymbolsFlag : UInt32 := 4

def isAligned (h : Header) : Bool := h.flags &&& alignedFlag != 0
def hasInputSymbols (h : Header) : Bool := h.flags &&& inputSymbolsFlag != 0
def hasOutputSymbols (h : Header) : Bool := h.flags &&& outputSymbolsFlag != 0

/-- The word of flags. -/
def flagWord (aligned inputSymbols outputSymbols : Bool) : UInt32 :=
  (if aligned then alignedFlag else 0) ||| (if inputSymbols then inputSymbolsFlag else 0)
    ||| (if outputSymbols then outputSymbolsFlag else 0)

/-- The file form. -/
def segments (h : Header) : List Segment :=
  [.value Layout.uint32 magic, .value Layout.int32 h.version, .value Layout.uint32 h.flags]
    ++ Segment.text h.typeName ++ Segment.text h.arcName
    ++ [.value Layout.uint64 h.properties, .value Layout.int64 h.start,
        .value Layout.int64 h.numStates, .value Layout.int64 h.numArcs]

/-- Reads a header; `source` names the file in messages. -/
def read (source : String) : Reading Header := do
  let found ← Reading.value Layout.uint32
  Reading.require (found == magic) (.badHeader (.magic source found))
  let version ← Reading.value Layout.int32
  let flags ← Reading.value Layout.uint32
  let typeName ← Reading.text
  let arcName ← Reading.text
  let properties ← Reading.value Layout.uint64
  let start ← Reading.value Layout.int64
  let numStates ← Reading.value Layout.int64
  let numArcs ← Reading.value Layout.int64
  Reading.require (0 ≤ numStates && 0 ≤ numArcs)
    (.badHeader (.negativeCounts source numStates numArcs))
  return ⟨typeName, arcName, version, flags, properties, start, numStates, numArcs⟩

theorem isAligned_flagWord (h : Header) {a i o : Bool} (e : h.flags = flagWord a i o) :
    h.isAligned = a ∧ h.hasInputSymbols = i ∧ h.hasOutputSymbols = o := by
  simp only [isAligned, hasInputSymbols, hasOutputSymbols, e]
  cases a <;> cases i <;> cases o <;> decide

end Header

/-- The symbol tables of a machine. -/
structure SymbolPair where
  input : Option SymbolTable
  output : Option SymbolTable
  deriving DecidableEq, Repr

namespace SymbolPair

def none : SymbolPair := ⟨.none, .none⟩

/-- The file form: the tables that are there, the input table first. -/
def segments (tables : SymbolPair) : List Segment :=
  tables.input.elim [] SymbolTable.segments ++ tables.output.elim [] SymbolTable.segments

/-- Reads one table, if there is one. -/
def readOne (there : Bool) : Reading (Option SymbolTable) :=
  if there then do return some (← SymbolTable.read) else pure .none

/-- Reads the tables that a header announces. -/
def read (h : Header) : Reading SymbolPair := do
  let input ← readOne h.hasInputSymbols
  let output ← readOne h.hasOutputSymbols
  return ⟨input, output⟩

end SymbolPair
end Transducer
