import Transducer.Compact.File
/-!
# Writing a file without packing a machine first

The machine of a view can be written in a packed format straight away. A first pass counts its
arcs and entries and shows them to the packing, whose payload is written after that; a machine
that is packed in this very format already lends its counts and its payload instead. A second
pass writes the offsets and the packed entries, state by state.
-/
namespace Transducer.Compact

variable {F : Format}

/-- Where the machine to be written comes from. -/
inductive Origin (F : Format) where
  /-- A machine packed in the format it is to be written in. -/
  | same (c : Compact F)
  | other (v : View)

def Origin.view : Origin F → View
  | same c => c.view
  | other v => v

/-- The result of the first pass. -/
structure Tally (F : Format) where
  payload : F.packing.Payload
  numArcs : Nat
  numEntries : Nat

/-- Shows entries to a packing, one after the other. -/
def prepareAll (P : Packing) (payload : P.Payload) (s : StateId) (entries : List Arc) :
    P.Payload :=
  entries.foldl (fun payload arc => P.prepare payload s arc) payload

/-- The first pass. -/
def tally (payload : F.packing.Payload) : Origin F → Except Error (Tally F)
  | .same c => .ok ⟨c.payload, c.store.numArcs, c.store.numElements⟩
  | .other v => do
    v.states.forM fun s => F.packing.checkState s (v.entries s).length
    return {
      payload := v.states.foldl
        (fun payload s => prepareAll F.packing payload s (v.entries s)) payload
      numArcs := v.totalArcs
      numEntries := v.totalArcs + v.states.countP v.isFinal }

/-- Refuses a number of entries that cannot be addressed. -/
def checkEntries (F : Format) (numStates numEntries : Nat) : Except Error Unit :=
  match F.packing.arity with
  | .fixed k =>
    if Arity.fills k numStates numEntries then .ok ()
    else .error (.mismatch (.entries numEntries numStates k))
  | .indexed => do
    let _ ← Offset.ofNat F.width numEntries

/-- An offset, or a refusal in its place. -/
def offsetSegment (w : OffsetWidth) (n : Nat) : Segment :=
  match Offset.ofNat w n with
  | .ok offset => .value (Offset.layout w) offset
  | .error cause => .refused cause

/-- The offsets of the states of a view, where the format has any. -/
def offsetSegments (F : Format) (v : View) (aligned : Bool) : List Segment :=
  match F.packing.arity with
  | .fixed _ => []
  | .indexed => Store.padSegments aligned
      ++ (runningSums 0 (v.states.map fun s => (v.entries s).length)).map (offsetSegment F.width)

/-- The packed entries of the states of a view, one by one. -/
def entrySegments (F : Format) (payload : F.packing.Payload) (v : View) : List Segment :=
  v.states.flatMap fun s =>
    (v.entries s).map fun arc => .value F.packing.layout (F.packing.pack payload s arc)

/-- The file form of a machine in a packed format. -/
def directSegments? (payload : F.packing.Payload) (origin : Origin F) (options : WriteOptions) :
    Except Error (List Segment) := do
  let v := origin.view
  checkSource F.packing v
  let counts ← tally payload origin
  checkEntries F v.numStates counts.numEntries
  let symbols := options.select v.symbols
  let header := options.header F (declaredBy F.packing v) v.start v.numStates counts.numArcs symbols
  return header.segments ++ symbols.segments ++ F.packing.payloadSegments counts.payload
    ++ offsetSegments F v options.aligned ++ Store.padSegments options.aligned
    ++ entrySegments F payload v

/-- Writes a machine to a sink in a packed format. -/
def writeDirect (payload : F.packing.Payload) (origin : Origin F) (options : WriteOptions)
    (sink : Sink) : Except Error Unit × Sink :=
  emit (directSegments? payload origin options) sink

end Transducer.Compact
