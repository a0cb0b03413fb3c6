import Transducer.Header
import Transducer.Store
/-!
# Stores in files

A store is kept as its offsets, if it has any, and its elements, each array at a multiple of the
file alignment in aligned files. Reading trusts nothing but the counts of the header: offsets
must start at zero and must not fall, and the last of them is the number of elements.
-/
namespace Transducer

/-- Whether no number is below the one before it. -/
def neverFalls : List Nat → Bool
  | first :: second :: rest => first ≤ second && neverFalls (second :: rest)
  | _ => true

namespace Store

variable {P : Packing} {w : OffsetWidth}

def padSegments (aligned : Bool) : List Segment :=
  if aligned then [.aligned fileAlignment] else []

/-- The file form. -/
def segments (store : Store P w) (aligned : Bool) : List Segment :=
  (match store.addressing with
    | .grouped _ => []
    | .indexed offsets =>
      padSegments aligned ++ [.array (Offset.layout w) offsets.values])
    ++ padSegments aligned ++ [.array P.layout store.elements.values]

/-- Passes over the padding before an array. -/
def readPad (aligned : Bool) : Reading Unit :=
  if aligned then Reading.align fileAlignment else pure ()

/-- Refuses offsets that fall or do not start at zero. -/
def checkOffsets (offsets : List (Offset w)) : Except Error Unit :=
  if !neverFalls (offsets.map (·.val)) then .error (.badHeader .unsortedOffsets)
  else if offsets.head?.any (·.val ≠ 0) then .error (.badHeader .firstOffset)
  else .ok ()

/-- Reads the way to the elements of each state and how many elements there are. -/
def readAddressing (P : Packing) (w : OffsetWidth) (aligned : Bool) (numStates : Nat)
    (mode : ReadMode) : Reading (Addressing w × Nat) :=
  match P.arity with
  | .indexed => do
    readPad aligned
    let offsets ← Reading.region (Offset.layout w) (numStates + 1) mode
    Reading.lift (checkOffsets offsets.values)
    readPad aligned
    let last := match offsets.values.getLast? with
      | some last => last.val
      | none => 0
    return (.indexed offsets, last)
  | .fixed k => do
    readPad aligned
    Reading.require (k * numStates < Region.byteLimit) (.badHeader (.groupCount numStates k))
    return (.grouped k, k * numStates)

/-- Reads a store under its header. -/
def read (P : Packing) (w : OffsetWidth) (header : Header) (mode : ReadMode) :
    Reading (Store P w) := do
  Reading.require (0 ≤ header.numStates) (.badHeader (.stateCount header.numStates.toInt))
  Reading.require (0 ≤ header.numArcs) (.badHeader (.arcCount header.numArcs.toInt))
  let numStates := header.numStates.toInt.toNat
  let (addressing, numElements) ← readAddressing P w header.isAligned numStates mode
  let elements ← Reading.region P.layout numElements mode
  return {
    addressing := addressing
    elements := elements
    start := header.start.toInt32
    numStates := numStates
    numArcs := header.numArcs.toInt.toNat }

end Store
end Transducer
