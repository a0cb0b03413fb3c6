import Transducer.Compact
import Transducer.Store.File
/-!
# Packed machines in files

A file holds the header, the symbol tables, the payload of the packing and the store. It is
written from a machine, or read from a source that may lend its bytes to the arrays. Aligned
files pad their arrays; they carry the older version number, and files of that version are read
as aligned even without the flag. Main statement: a failed machine is not written.
-/
namespace Transducer

/-- The version of files without padding. -/
def fileVersion : Int32 := 2

/-- The version of aligned files. -/
def alignedVersion : Int32 := 1

/-- The oldest version that can be read. -/
def oldestVersion : Int32 := 1

/-- How a file is written. -/
structure WriteOptions where
  aligned : Bool
  inputSymbols : Bool
  outputSymbols : Bool
  deriving DecidableEq, Repr

namespace WriteOptions

def standard : WriteOptions := ⟨false, true, true⟩

/-- The symbol tables that are to be written. -/
def select (options : WriteOptions) (symbols : SymbolPair) : SymbolPair :=
  ⟨if options.inputSymbols then symbols.input else none,
    if options.outputSymbols then symbols.output else none⟩

/-- The header of a file with these options and contents. -/
def header (options : WriteOptions) (F : Format) (properties : UInt64) (start : StateId)
    (numStates numArcs : Nat) (symbols : SymbolPair) : Header where
  typeName := F.typeName
  arcName := F.algebra.arcName
  version := if options.aligned then alignedVersion else fileVersion
  flags := Header.flagWord options.aligned symbols.input.isSome symbols.output.isSome
  properties := properties
  start := start.toInt64
  numStates := Int64.ofNat numStates
  numArcs := Int64.ofNat numArcs

end WriteOptions

namespace Compact

variable {F : Format}

/-- The file form; none for a machine left by a failure. -/
def segments? (c : Compact F) (options : WriteOptions) : Except Error (List Segment) :=
  if c.error.isSome then .error .propagated
  else
    let symbols := options.select c.symbols
    let header := options.header F c.properties c.store.start c.store.numStates c.store.numArcs
      symbols
    .ok (header.segments ++ symbols.segments ++ F.packing.payloadSegments c.payload
      ++ c.store.segments options.aligned)

/-- Writes segments to a sink from its beginning, unless there are none to write. -/
def emit (segments : Except Error (List Segment)) (sink : Sink) : Except Error Unit × Sink :=
  match segments with
  | .ok segments =>
    let (outcome, after) := (Writer.mk sink 0).writeFlushed segments
    (outcome, after.sink)
  | .error cause => (.error cause, sink)

/-- Writes a machine to a sink. -/
def write (c : Compact F) (options : WriteOptions) (sink : Sink) : Except Error Unit × Sink :=
  emit (c.segments? options) sink

/-- Reads the header of a file, refusing other formats and starts out of range. -/
def readHeader (F : Format) (source : String) : Reading Header := do
  let found ← Header.read source
  Reading.require (oldestVersion ≤ found.version)
    (.badHeader (.version source found.version oldestVersion))
  let header : Header :=
    if found.version = alignedVersion ∧ !found.isAligned then
      { found with flags := found.flags ||| Header.alignedFlag }
    else found
  Reading.require (header.typeName == F.typeName)
    (.badHeader (.typeName source header.typeName F.typeName))
  Reading.require (header.arcName == F.algebra.arcName)
    (.badHeader (.arcName source header.arcName F.algebra.arcName))
  let inside := 0 ≤ header.start && header.start < header.numStates
  Reading.require
    (header.numStates ≤ 2147483647 && (header.start == noState.toInt64 || inside))
    (.badHeader (.start source header.start header.numStates))
  return header

/-- Reads a machine from a source at the beginning of a file. Only arrays of aligned files are
borrowed. -/
def read (F : Format) (source : String) (mode : ReadMode) : Reading (Compact F) := do
  let header ← readHeader F source
  let symbols ← SymbolPair.read header
  let payload ← F.packing.readPayload
  let store ← Store.read F.packing F.width header (if header.isAligned then mode else .copy)
  return assemble payload store header.properties symbols

/-- Reads a machine from a named file, whose contents are given if it exists; it is mapped when
its arrays are to be borrowed. -/
def ofFile (F : Format) (name : String) (contents : Option (List UInt8)) (mode : ReadMode) :
    Except Error (Compact F) :=
  match contents with
  | none => .error .missingFile
  | some bytes =>
    let source := match mode with
      | .borrow => Source.ofMapping bytes
      | .copy => Source.ofBytes bytes
    (read F name mode source).1

theorem segments?_of_error {c : Compact F} {cause : Error} (h : c.error = some cause)
    (options : WriteOptions) : c.segments? options = .error .propagated := by
  simp [segments?, h]

end Compact
end Transducer
