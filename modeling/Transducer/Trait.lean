/-!
# Traits

Facts about a machine that may be known to hold, known to fail, or unknown. Each has a pair of
neighbouring bits in a 64-bit word, one for holding and one for failing; the three lowest bits of
the word are plain facts that are always known. Main statements: every trait is listed, and
which words hold the bits of all traits.
-/
namespace Transducer

inductive Trait where
  /-- Every arc has equal labels. -/
  | acceptor
  /-- No state has two arcs with the same input label. -/
  | inputDeterministic
  /-- No state has two arcs with the same output label. -/
  | outputDeterministic
  /-- Some arc has two empty labels. -/
  | epsilons
  | inputEpsilons
  | outputEpsilons
  /-- The arcs of every state ascend by input label. -/
  | inputSorted
  | outputSorted
  /-- Some weight is neither `one` nor `zero`. -/
  | weighted
  | cyclic
  /-- The start lies on a cycle. -/
  | initialCyclic
  /-- Every arc leads to a later state. -/
  | topSorted
  /-- Every state can be reached from the start. -/
  | accessible
  /-- From every state a final one can be reached. -/
  | coaccessible
  /-- The states form one chain that ends in the only final state. -/
  | string
  deriving DecidableEq, Repr

namespace Trait

/-- All traits, in the order of their bits. -/
def all : List Trait :=
  [acceptor, inputDeterministic, outputDeterministic, epsilons, inputEpsilons, outputEpsilons,
    inputSorted, outputSorted, weighted, cyclic, initialCyclic, topSorted, accessible,
    coaccessible, string]

/-- The place of a trait among all of them. -/
def rank : Trait → Nat
  | acceptor => 0
  | inputDeterministic => 1
  | outputDeterministic => 2
  | epsilons => 3
  | inputEpsilons => 4
  | outputEpsilons => 5
  | inputSorted => 6
  | outputSorted => 7
  | weighted => 8
  | cyclic => 9
  | initialCyclic => 10
  | topSorted => 11
  | accessible => 12
  | coaccessible => 13
  | string => 14

/-- The bit of a trait that holds. -/
def yes (t : Trait) : UInt64 := 1 <<< UInt64.ofNat (16 + 2 * t.rank)

/-- The bit of a trait that fails. -/
def no (t : Trait) : UInt64 := 1 <<< UInt64.ofNat (17 + 2 * t.rank)

theorem mem_all (t : Trait) : t ∈ all := by cases t <;> decide

end Trait

namespace TraitWord

/-- The machine knows the number of its states. -/
def expanded : UInt64 := 1

/-- The machine can be changed. -/
def mutable : UInt64 := 2

/-- The machine is the result of a failure. -/
def failed : UInt64 := 4

/-- The bits that are always known. -/
def plain : UInt64 := expanded ||| mutable ||| failed

/-- The bits of traits that hold. -/
def positive : UInt64 := Trait.all.foldl (fun word t => word ||| t.yes) 0

/-- The bits of traits that fail. -/
def negative : UInt64 := Trait.all.foldl (fun word t => word ||| t.no) 0

/-- The bits of all traits. -/
def paired : UInt64 := positive ||| negative

/-- What a copy of a machine keeps. -/
def copied : UInt64 := failed ||| paired

/-- The word of a verdict on every trait. -/
def ofVerdict (holds : Trait → Bool) : UInt64 :=
  Trait.all.foldl (fun word t => word ||| if holds t then t.yes else t.no) 0

/-- The bits that a word decides, in either way. -/
def known (word : UInt64) : UInt64 :=
  plain ||| (word &&& paired) ||| ((word &&& positive) <<< 1) ||| ((word &&& negative) >>> 1)

/-- Whether two words agree on all that both of them decide. -/
def compatible (word other : UInt64) : Bool :=
  let both := known word &&& known other
  word &&& both == other &&& both

/-- Whether a word has all bits of a mask. -/
def hasAll (word mask : UInt64) : Bool := word &&& mask == mask

theorem paired_eq : paired = 0x3fffffff0000 := by decide

theorem positive_eq : positive = 0x155555550000 := by decide

theorem negative_eq : negative = 0x2aaaaaaa0000 := by decide

end TraitWord
end Transducer
