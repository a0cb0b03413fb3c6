import Transducer.Packing.Fields
import Transducer.Source
import Transducer.Trait
/-!
# Packings

A packing keeps the arcs of a machine as elements of a fixed size, leaving out what the traits it
demands make superfluous. Final weights are kept as elements too, packed from superfinal arcs.
A state owns either a fixed number of elements or any number. A packing may carry a payload of
its own, which files keep. Main statements: states that are full fill the total, and how many arcs
the entries of a state hold.
-/
namespace Transducer

/-- How many elements a state owns. -/
inductive Arity where
  /-- Exactly `k`, the final one included. -/
  | fixed (k : Nat)
  | indexed
  deriving DecidableEq, Repr

/-- The fixed number of elements, if there is one. -/
def Arity.fixed? : Arity → Option Nat
  | fixed k => some k
  | indexed => none

def Arity.isIndexed : Arity → Bool
  | fixed _ => false
  | indexed => true

/-- Whether so many entries are in total what states of `k` entries take up. The product is one of
words and wraps around, so that a total may also agree with it by accident. -/
def Arity.fills (k numStates numEntries : Nat) : Bool :=
  UInt64.ofNat numEntries == UInt64.ofNat k * UInt64.ofNat numStates

theorem Arity.fills_of_eq {k numStates numEntries : Nat} (full : numEntries = k * numStates) :
    Arity.fills k numStates numEntries = true := by
  rw [Arity.fills, full, UInt64.ofNat_mul, beq_self_eq_true]

/-- The converse fails: two states without entries seem to be full. -/
example : Arity.fills (2 ^ 63) 2 0 = true := by decide

structure Packing : Type 1 where
  Element : Type
  Payload : Type
  /-- The name of the packing inside the names of machine types. -/
  tag : String
  arity : Arity
  /-- The traits that every packed machine has. -/
  required : UInt64
  layout : Layout Element
  /-- The payload of a new packing. -/
  initial : Payload
  pack : Payload → StateId → Arc → Element
  /-- Restores the selected fields of an arc; the others are unspecified. -/
  unpack : Payload → StateId → Element → Fields → Arc
  /-- Shows an arc to the packing before the payload is written by the direct writer. -/
  prepare : Payload → StateId → Arc → Payload
  payloadSegments : Payload → List Segment
  readPayload : Reading Payload

namespace Packing

/-- A packing without a payload. -/
def stateless {Element : Type} (tag : String) (arity : Arity) (required : UInt64)
    (layout : Layout Element) (pack : StateId → Arc → Element)
    (unpack : StateId → Element → Fields → Arc) : Packing where
  Element := Element
  Payload := Unit
  tag := tag
  arity := arity
  required := required
  layout := layout
  initial := ()
  pack _ := pack
  unpack _ := unpack
  prepare _ _ _ := ()
  payloadSegments _ := []
  readPayload := pure ()

/-- The input label of an element. -/
def inputLabel (P : Packing) (payload : P.Payload) (s : StateId) (e : P.Element) : Label :=
  (P.unpack payload s e Fields.onlyInput).ilabel

/-- Whether an element is a final entry rather than an arc. -/
def isFinalEntry (P : Packing) (payload : P.Payload) (s : StateId) (e : P.Element) : Bool :=
  P.inputLabel payload s e == noLabel

/-- Whether the entries of a state start with a final one. -/
def startsFinal (P : Packing) (payload : P.Payload) (s : StateId) (window : List P.Element) :
    Bool :=
  window.head?.any (P.isFinalEntry payload s)

/-- The entries of a state without a final one at the front. -/
def arcEntries (P : Packing) (payload : P.Payload) (s : StateId) (window : List P.Element) :
    List P.Element :=
  if P.startsFinal payload s window then window.drop 1 else window

/-- Counts the arcs with an empty label among the entries of a state. When the entries are
known to ascend, those after the first label above it are not looked at. -/
def countEpsilons (P : Packing) (payload : P.Payload) (s : StateId) (output sorted : Bool) :
    List P.Element → Nat
  | [] => 0
  | e :: rest =>
    let arc := P.unpack payload s e (if output then Fields.onlyOutput else Fields.onlyInput)
    let label := if output then arc.olabel else arc.ilabel
    if label = noLabel then countEpsilons P payload s output sorted rest
    else if label = epsilon then countEpsilons P payload s output sorted rest + 1
    else if sorted && epsilon < label then 0
    else countEpsilons P payload s output sorted rest

theorem length_arcEntries (P : Packing) (payload : P.Payload) (s : StateId)
    (window : List P.Element) : (P.arcEntries payload s window).length
      = window.length - (P.startsFinal payload s window).toNat := by
  unfold arcEntries
  split <;> simp_all

end Packing
end Transducer
