import Transducer.Layout
import Transducer.Weight.Text
/-!
# Packed elements

The records that packings keep in the place of arcs, with their layouts, their equality (weights
compared as numbers) and their text. Elements with a weight are laid out without gaps and may
start anywhere; the others start at a multiple of four.
-/
namespace Transducer

/-- A label and a weight. -/
structure WeightedLabel where
  label : Label
  weight : Weight
  deriving DecidableEq, Repr

/-- A label and the next state. -/
structure LabelState where
  label : Label
  nextstate : StateId
  deriving DecidableEq, Repr

/-- A label, a weight and the next state. -/
structure WeightedLabelState where
  label : Label
  weight : Weight
  nextstate : StateId
  deriving DecidableEq, Repr

/-- Two labels and the next state. -/
structure LabelPairState where
  ilabel : Label
  olabel : Label
  nextstate : StateId
  deriving DecidableEq, Repr

/-- The text of a record: its name and its fields in order. -/
def recordText (name : String) (fields : List (String × String)) : String :=
  name ++ " \x7b " ++ ", ".intercalate (fields.map fun (field, value) => field ++ ": " ++ value)
    ++ " \x7d"

namespace WeightedLabel

def layout : Layout WeightedLabel :=
  (Layout.int32.pair Layout.weight).unaligned.transfer (fun e => (e.label, e.weight))
    (fun p => ⟨p.1, p.2⟩) (fun _ => rfl) (fun _ => rfl)

def same (a b : WeightedLabel) : Bool := a.label == b.label && a.weight.same b.weight

def debugText (algebra : Algebra) (e : WeightedLabel) : String :=
  recordText "WeightedLabel"
    [("label", toString e.label.toInt), ("weight", e.weight.debugText algebra)]

end WeightedLabel

namespace LabelState

def layout : Layout LabelState :=
  (Layout.int32.pair Layout.int32).transfer (fun e => (e.label, e.nextstate))
    (fun p => ⟨p.1, p.2⟩) (fun _ => rfl) (fun _ => rfl)

def debugText (e : LabelState) : String :=
  recordText "LabelState"
    [("label", toString e.label.toInt), ("nextstate", toString e.nextstate.toInt)]

end LabelState

namespace WeightedLabelState

def layout : Layout WeightedLabelState :=
  ((Layout.int32.pair Layout.weight).pair Layout.int32).unaligned.transfer
    (fun e => ((e.label, e.weight), e.nextstate)) (fun p => ⟨p.1.1, p.1.2, p.2⟩)
    (fun _ => rfl) (fun _ => rfl)

def same (a b : WeightedLabelState) : Bool :=
  a.label == b.label && a.weight.same b.weight && a.nextstate == b.nextstate

def debugText (algebra : Algebra) (e : WeightedLabelState) : String :=
  recordText "WeightedLabelState"
    [("label", toString e.label.toInt), ("weight", e.weight.debugText algebra),
      ("nextstate", toString e.nextstate.toInt)]

end WeightedLabelState

namespace LabelPairState

def layout : Layout LabelPairState :=
  ((Layout.int32.pair Layout.int32).pair Layout.int32).transfer
    (fun e => ((e.ilabel, e.olabel), e.nextstate)) (fun p => ⟨p.1.1, p.1.2, p.2⟩)
    (fun _ => rfl) (fun _ => rfl)

def debugText (e : LabelPairState) : String :=
  recordText "LabelPairState"
    [("ilabel", toString e.ilabel.toInt), ("olabel", toString e.olabel.toInt),
      ("nextstate", toString e.nextstate.toInt)]

end LabelPairState
end Transducer
