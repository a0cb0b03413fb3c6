import Transducer.Packing
import Transducer.Packing.Element
/-!
# The stock packings

Five packings, from strings, which keep one label for each state, to transducers without
weights. Each leaves out what its required traits settle: equal labels, weights, and in strings
the next state, which is the following one. Main statements: each element restores the final
entry it was packed from.
-/
namespace Transducer

namespace Packing

/-- Where an element of a string leads: nowhere after the end, otherwise to the following state. -/
def followingState (s : StateId) (label : Label) : StateId :=
  if label = noLabel then noState else s + 1

/-- Strings without weights: one label for each state. -/
def string : Packing :=
  stateless "string" (.fixed 1) (Trait.string.yes ||| Trait.acceptor.yes ||| Trait.weighted.no)
    Layout.int32 (fun _ arc => arc.ilabel)
    (fun s label _ => ⟨label, label, Weight.one, followingState s label⟩)

/-- Strings with weights: a label and a weight for each state. -/
def weightedString : Packing :=
  stateless "weighted_string" (.fixed 1) (Trait.string.yes ||| Trait.acceptor.yes)
    WeightedLabel.layout (fun _ arc => ⟨arc.ilabel, arc.weight⟩)
    (fun s e fields => ⟨e.label, e.label, if fields.weight then e.weight else Weight.one,
      followingState s e.label⟩)

/-- Acceptors without weights. -/
def unweightedAcceptor : Packing :=
  stateless "unweighted_acceptor" .indexed (Trait.acceptor.yes ||| Trait.weighted.no)
    LabelState.layout (fun _ arc => ⟨arc.ilabel, arc.nextstate⟩)
    (fun _ e _ => ⟨e.label, e.label, Weight.one, e.nextstate⟩)

/-- Acceptors with weights. -/
def acceptor : Packing :=
  stateless "acceptor" .indexed Trait.acceptor.yes
    WeightedLabelState.layout (fun _ arc => ⟨arc.ilabel, arc.weight, arc.nextstate⟩)
    (fun _ e fields => ⟨e.label, e.label, if fields.weight then e.weight else Weight.one,
      e.nextstate⟩)

/-- Packs an arc without its weight. -/
def packPair (arc : Arc) : LabelPairState := ⟨arc.ilabel, arc.olabel, arc.nextstate⟩

/-- Restores an arc packed without its weight. -/
def unpackPair (e : LabelPairState) : Arc := ⟨e.ilabel, e.olabel, Weight.one, e.nextstate⟩

/-- Transducers without weights. -/
def unweighted : Packing :=
  stateless "unweighted" .indexed Trait.weighted.no LabelPairState.layout
    (fun _ => packPair) (fun _ e _ => unpackPair e)

/-- Transducers without weights, all of whose states have `k` entries, whatever their traits. -/
def grouped (k : Nat) : Packing :=
  stateless ("fixed" ++ toString k) (.fixed k) 0 LabelPairState.layout
    (fun _ => packPair) (fun _ e _ => unpackPair e)

/-- Transducers without weights, with a payload that counts the arcs it has been shown. -/
def counting : Packing where
  Element := LabelPairState
  Payload := Int64
  tag := "counting"
  arity := .indexed
  required := 0
  layout := LabelPairState.layout
  initial := 0
  pack _ _ := packPair
  unpack _ _ e _ := unpackPair e
  prepare shown _ _ := shown + 1
  payloadSegments shown := [.value Layout.int64 shown]
  readPayload := Reading.value Layout.int64

end Packing

/-- The stock packings by name. -/
inductive Stock where
  | string
  | weightedString
  | unweightedAcceptor
  | acceptor
  | unweighted
  deriving DecidableEq, Repr

namespace Stock

def packing : Stock → Packing
  | string => Packing.string
  | weightedString => Packing.weightedString
  | unweightedAcceptor => Packing.unweightedAcceptor
  | acceptor => Packing.acceptor
  | unweighted => Packing.unweighted

/-- Whether the elements keep the weights of the arcs. -/
def keepsWeights : Stock → Bool
  | weightedString | acceptor => true
  | string | unweightedAcceptor | unweighted => false

/-- Equality of elements, weights being compared as numbers. -/
def sameElement : (k : Stock) → k.packing.Element → k.packing.Element → Bool
  | string => fun (a b : Label) => a == b
  | weightedString => WeightedLabel.same
  | unweightedAcceptor => fun (a b : LabelState) => a == b
  | acceptor => WeightedLabelState.same
  | unweighted => fun (a b : LabelPairState) => a == b

/-- The text of an element. -/
def elementText (algebra : Algebra) : (k : Stock) → k.packing.Element → String
  | string => fun (label : Label) => toString label.toInt
  | weightedString => WeightedLabel.debugText algebra
  | unweightedAcceptor => LabelState.debugText
  | acceptor => WeightedLabelState.debugText algebra
  | unweighted => LabelPairState.debugText

/-- What a final entry restores to. -/
theorem unpack_pack_superfinal (k : Stock) (payload : k.packing.Payload) (s : StateId)
    (w : Weight) :
    k.packing.unpack payload s (k.packing.pack payload s (Arc.superfinal w)) Fields.all
      = Arc.superfinal (if k.keepsWeights then w else Weight.one) := by
  cases k <;> rfl

/-- The input label of an arc is always kept. -/
theorem inputLabel_pack (k : Stock) (payload : k.packing.Payload) (s : StateId) (arc : Arc) :
    k.packing.inputLabel payload s (k.packing.pack payload s arc) = arc.ilabel := by
  cases k <;> rfl

end Stock
end Transducer
