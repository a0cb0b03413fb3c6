import Transducer.ArcCache
import Transducer.Cursor
import Transducer.Store.OfElements
import Transducer.Store.OfView
/-!
# Packed machines

A packed machine is a store read through its packing: arcs and final weights are decoded when
asked for. It declares the traits it was built with, carries symbol tables, and keeps a cache of
decoded states. Building can fail; where the caller prefers a machine to a failure, the result
is an empty machine that remembers its error and declares that it failed. Main statements:
the arcs of a state are its decoded entries after a final one, and a failed machine is empty.
-/
namespace Transducer

/-- What a kind of packed machine is made of. -/
structure Format : Type 1 where
  algebra : Algebra
  packing : Packing
  width : OffsetWidth

namespace Format

/-- The name of the machine type; the width shows unless it is the usual one. -/
def typeName (F : Format) : String :=
  "compact" ++ (if F.width = .four then "" else toString F.width.bits) ++ "_" ++ F.packing.tag

end Format

structure Compact (F : Format) where
  payload : F.packing.Payload
  store : Store F.packing F.width
  properties : UInt64
  symbols : SymbolPair
  error : Option Error
  cache : ArcCache

namespace Compact

variable {F : Format}

/-! ## Decoding -/

/-- The entries of a state. -/
def window (c : Compact F) (s : StateId) : List F.packing.Element := c.store.window s

/-- The final weight of a state: that of the final entry at its front. -/
def final (c : Compact F) (s : StateId) : Weight :=
  match (c.window s).head? with
  | some e =>
    let arc := F.packing.unpack c.payload s e Fields.inputAndWeight
    if arc.ilabel = noLabel then arc.weight else Weight.zero
  | none => Weight.zero

/-- Whether a trait is declared to hold. -/
def declares (c : Compact F) (t : Trait) : Bool := c.properties &&& t.yes != 0

/-- A cursor at the first arc of a state. -/
def cursor (c : Compact F) (s : StateId) : Cursor F.packing :=
  Cursor.start c.payload s (c.window s) (c.declares .inputSorted)

/-- The arcs of a state. -/
def arcs (c : Compact F) (s : StateId) : List Arc := (c.cursor s).rest.1

def inputEpsilons (c : Compact F) (s : StateId) : Nat :=
  F.packing.countEpsilons c.payload s false (c.declares .inputSorted) (c.window s)

def outputEpsilons (c : Compact F) (s : StateId) : Nat :=
  F.packing.countEpsilons c.payload s true (c.declares .outputSorted) (c.window s)

def view (c : Compact F) : View where
  typeName := F.typeName
  start := c.store.start
  numStates := c.store.numStates
  final := c.final
  arcs := c.arcs
  inputEpsilons := c.inputEpsilons
  outputEpsilons := c.outputEpsilons
  properties := c.properties
  symbols := c.symbols

/-! ## Building -/

/-- A packed machine around a store, with an empty cache. -/
def assemble (payload : F.packing.Payload) (store : Store F.packing F.width)
    (properties : UInt64) (symbols : SymbolPair) : Compact F :=
  ⟨payload, store, properties, symbols, none, ArcCache.empty CacheOptions.standard⟩

/-- The empty machine that a failure leaves. -/
def ofError (payload : F.packing.Payload) (cause : Error) : Compact F :=
  { assemble payload (Store.empty F.packing F.width) (TraitWord.failed ||| TraitWord.expanded)
      SymbolPair.none with error := some cause }

/-- Refuses a source that is the result of a failure or lacks a trait the packing demands. -/
def checkSource (P : Packing) (source : View) : Except Error Unit :=
  if source.isFailed then .error .propagated
  else if source.test P.required ≠ P.required then
    .error (.mismatch (.traits P.tag P.required))
  else .ok ()

/-- The word that a packed copy of a machine declares. -/
def declaredBy (P : Packing) (source : View) : UInt64 :=
  source.test TraitWord.copied ||| P.required ||| TraitWord.expanded

/-- Packs the machine of a view. -/
def ofView? (payload : F.packing.Payload) (source : View) : Except Error (Compact F) := do
  checkSource F.packing source
  let store ← Store.ofView F.packing F.width payload source
  return assemble payload store (declaredBy F.packing source) source.symbols

/-- Builds a machine from packed elements. It declares what every packed machine has. -/
def ofElements? (payload : F.packing.Payload) (elements : List F.packing.Element) :
    Except Error (Compact F) := do
  let store ← Store.ofElements F.packing F.width payload elements
  return assemble payload store (F.packing.required ||| TraitWord.expanded) SymbolPair.none

/-- A result, or the empty machine that its failure leaves. -/
def orError (payload : F.packing.Payload) : Except Error (Compact F) → Compact F
  | .ok c => c
  | .error cause => ofError payload cause

/-- As `ofView?`, a failure leaving an empty machine. -/
def ofView (payload : F.packing.Payload) (source : View) : Compact F :=
  orError payload (ofView? payload source)

/-- As `ofElements?`, a failure leaving an empty machine. -/
def ofElements (payload : F.packing.Payload) (elements : List F.packing.Element) : Compact F :=
  orError payload (ofElements? payload elements)

/-- Puts a store that was already built from a machine behind its traits and symbol tables. -/
def withStore (payload : F.packing.Payload) (store : Store F.packing F.width) (source : View) :
    Except Error (Compact F) := do
  checkSource F.packing source
  if store.numStates ≠ source.numStates ∨ store.start ≠ source.start then
    throw (.illFormed (.shape store.numStates store.start source.numStates source.start))
  return assemble payload store (declaredBy F.packing source) source.symbols

/-! ## Changing -/

/-- Puts new elements in the place of the store. The symbol tables stay; the cache and an
earlier error go. -/
def setElements (c : Compact F) (elements : List F.packing.Element) :
    Except Error (Compact F) := do
  let store ← Store.ofElements F.packing F.width c.payload elements
  return { c with
    store := store
    properties := F.packing.required ||| TraitWord.expanded
    error := none
    cache := c.cache.clear }

def setInputSymbols (c : Compact F) (table : Option SymbolTable) : Compact F :=
  { c with symbols := { c.symbols with input := table } }

def setOutputSymbols (c : Compact F) (table : Option SymbolTable) : Compact F :=
  { c with symbols := { c.symbols with output := table } }

/-- Starts a new cache under other options. -/
def withCacheOptions (c : Compact F) (options : CacheOptions) : Compact F :=
  { c with cache := ArcCache.empty options }

/-- A copy on the same store, with a cache of its own under the same options. -/
def clone (c : Compact F) : Compact F := c.withCacheOptions c.cache.options

/-! ## The cache -/

/-- Decodes the entries of a state, the last final entry giving the final weight. -/
def decode (c : Compact F) (s : StateId) : DecodedState :=
  (c.window s).foldl (fun state e =>
    let arc := F.packing.unpack c.payload s e Fields.all
    if arc.ilabel = noLabel then { state with final := arc.weight }
    else { state with arcs := state.arcs ++ [arc] }) ⟨Weight.zero, []⟩

/-- The decoded state, from the cache if it is there, and the machine with it in the cache. -/
def expand (c : Compact F) (s : StateId) : DecodedState × Compact F :=
  match c.cache.get? s with
  | some state => (state, c)
  | none =>
    let state := c.decode s
    (state, { c with cache := c.cache.insert s state })

def isCached (c : Compact F) (s : StateId) : Bool := (c.cache.get? s).isSome

def numCached (c : Compact F) : Nat := c.cache.entries.length

/-! ## Text -/

/-- The text of a packed machine: its type, its counts, its traits and its error. -/
def debugText (c : Compact F) : String :=
  let error := match c.error with
    | some cause => s!"Some({cause.debugText})"
    | none => "None"
  "CompactFst \x7b fst_type: " ++ Text.quoted F.typeName
    ++ ", num_states: " ++ toString c.store.numStates
    ++ ", num_arcs: " ++ toString c.store.numArcs
    ++ ", properties: " ++ Text.hexWord c.properties.toNat
    ++ ", mapped: " ++ toString c.store.isBorrowed
    ++ ", error: " ++ error ++ " \x7d"

/-- A machine left by a failure has no entries in any state. -/
theorem window_ofError (payload : F.packing.Payload) (cause : Error) (s : StateId) :
    (ofError (F := F) payload cause).window s = [] :=
  Store.window_empty F.packing F.width s

theorem arcs_eq (c : Compact F) (s : StateId) :
    c.arcs s = (F.packing.arcEntries c.payload s (c.window s)).map
      fun e => F.packing.unpack c.payload s e Fields.all := rfl

end Compact
end Transducer
