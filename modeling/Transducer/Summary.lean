import Transducer.View
/-!
# Summaries

The counts of a machine with a text that lists them, and the labels along a string.
-/
namespace Transducer

structure Summary where
  typeName : String
  arcName : String
  numStates : Nat
  numArcs : Nat
  numFinals : Nat
  inputEpsilons : Nat
  outputEpsilons : Nat
  properties : UInt64
  inputSymbols : Option String
  outputSymbols : Option String
  deriving DecidableEq, Repr

namespace Summary

def ofView (algebra : Algebra) (v : View) : Summary where
  typeName := v.typeName
  arcName := algebra.arcName
  numStates := v.numStates
  numArcs := v.totalArcs
  numFinals := v.states.countP v.isFinal
  inputEpsilons := v.total v.inputEpsilons
  outputEpsilons := v.total v.outputEpsilons
  properties := v.properties
  inputSymbols := v.symbols.input.map SymbolTable.name
  outputSymbols := v.symbols.output.map SymbolTable.name

/-- A name, filled up to the column of the values, and a value. -/
def line (name value : String) : String :=
  name ++ String.ofList (List.replicate (32 - name.length) ' ') ++ value ++ "\n"

/-- The traits that the text lists. -/
def listed : List (String × UInt64) :=
  [("expanded", TraitWord.expanded), ("mutable", TraitWord.mutable),
    ("error", TraitWord.failed), ("acceptor", Trait.acceptor.yes),
    ("input label sorted", Trait.inputSorted.yes),
    ("output label sorted", Trait.outputSorted.yes), ("unweighted", Trait.weighted.no),
    ("acyclic", Trait.cyclic.no), ("string", Trait.string.yes)]

/-- The text of a summary: one line for each count and for each listed trait. -/
def text (summary : Summary) : String :=
  let counts :=
    [("fst type", summary.typeName), ("arc type", summary.arcName),
      ("input symbol table", summary.inputSymbols.getD "none"),
      ("output symbol table", summary.outputSymbols.getD "none"),
      ("# of states", toString summary.numStates), ("# of arcs", toString summary.numArcs),
      ("# of final states", toString summary.numFinals),
      ("# of input epsilons", toString summary.inputEpsilons),
      ("# of output epsilons", toString summary.outputEpsilons)]
  let traits := listed.map fun (name, bit) =>
    (name, if summary.properties &&& bit != 0 then "y" else "n")
  String.join ((counts ++ traits).map fun (name, value) => line name value)

end Summary

namespace View

/-- Follows single arcs from a state that are not final, for at most `steps` states; the labels
passed, if the way ends in a final state without arcs. -/
def labelsFrom (v : View) : Nat → StateId → Option (List Label)
  | 0, _ => none
  | steps + 1, s =>
    match v.arcs s with
    | [] => if v.isFinal s then some [] else none
    | [arc] =>
      if v.isFinal s then none else (v.labelsFrom steps arc.nextstate).map (arc.ilabel :: ·)
    | _ => none

/-- The labels along the string that the machine is, if it is one. -/
def stringLabels? (v : View) : Option (List Label) :=
  if v.start = noState then none else v.labelsFrom v.numStates v.start

end View
end Transducer
