import Transducer.OffsetWidth
import Transducer.Packing
/-!
# Stores

The lasting arrays of a packed machine: its elements one state after the other, the final entry
of a state first, and the way from a state to its elements. Either every state has the same
number of elements, or an array of offsets, one more than there are states, tells where each
state begins and the last one ends. Main statements: the length of a slice, and that the
store without states shows no elements.
-/
namespace Transducer

/-- The way from a state to its elements. -/
inductive Addressing (w : OffsetWidth) where
  /-- Every state has `k` elements. -/
  | grouped (k : Nat)
  /-- Each state has those from its offset up to the next one. -/
  | indexed (offsets : Region (Offset w))

structure Store (P : Packing) (w : OffsetWidth) where
  addressing : Addressing w
  elements : Region P.Element
  start : StateId
  numStates : Nat
  numArcs : Nat

/-- The part of a list from one position up to another; nothing if it does not lie inside. -/
def slice {α : Type} (values : List α) (start stop : Nat) : List α :=
  if start ≤ stop ∧ stop ≤ values.length then (values.drop start).take (stop - start) else []

theorem length_slice {α : Type} {values : List α} {start stop : Nat} (h : start ≤ stop)
    (h' : stop ≤ values.length) : (slice values start stop).length = stop - start := by
  simp [slice, h, h']; omega

namespace Addressing

variable {w : OffsetWidth}

def arity : Addressing w → Arity
  | grouped k => .fixed k
  | indexed _ => .indexed

/-- Where the elements of the state at a position start and stop. -/
def bounds? (a : Addressing w) (i : Nat) : Option (Nat × Nat) :=
  match a with
  | grouped k => some (i * k, (i + 1) * k)
  | indexed offsets =>
    match offsets.values[i]?, offsets.values[i + 1]? with
    | some start, some stop => some (start, stop)
    | _, _ => none

/-- The offsets, where there are any. -/
def offsets? : Addressing w → Option (List (Offset w))
  | grouped _ => none
  | indexed offsets => some offsets.values

end Addressing

namespace Store

variable {P : Packing} {w : OffsetWidth}

/-- The store without states. -/
def empty (P : Packing) (w : OffsetWidth) : Store P w where
  addressing := match P.arity with
    | .fixed k => .grouped k
    | .indexed => .indexed (Region.owned [Offset.zero w])
  elements := Region.owned []
  start := noState
  numStates := 0
  numArcs := 0

def numElements (store : Store P w) : Nat := store.elements.values.length

/-- Whether the elements lie in the bytes of a file. -/
def isBorrowed (store : Store P w) : Bool := store.elements.borrowed

/-- The elements of the state at a position. -/
def windowAt (store : Store P w) (i : Nat) : List P.Element :=
  match store.addressing.bounds? i with
  | some (start, stop) => slice store.elements.values start stop
  | none => []

/-- The elements of a state, none for a state out of range. -/
def window (store : Store P w) (s : StateId) : List P.Element :=
  match position? s with
  | some i => if i < store.numStates then store.windowAt i else []
  | none => []

theorem window_empty (P : Packing) (w : OffsetWidth) (s : StateId) :
    (empty P w).window s = [] := by
  unfold window
  split <;> simp [empty]

theorem window_of_position {store : Store P w} {s : StateId} {i : Nat}
    (h : position? s = some i) (hi : i < store.numStates) : store.window s = store.windowAt i := by
  simp [window, h, hi]

end Store
end Transducer
