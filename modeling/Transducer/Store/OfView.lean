import Transducer.Store
import Transducer.View
/-!
# Packing a machine

The store that holds the machine of a view: each state packed in turn, its final entry first.
With a fixed number of elements for each state the entries must fill the states exactly, in
total and one by one; otherwise every offset must fit its width. Main statements: the running
sums that are the offsets.
-/
namespace Transducer

/-- The sums of the lengths before each position, and of all, on top of `start`. -/
def runningSums : Nat → List Nat → List Nat
  | start, [] => [start]
  | start, length :: lengths => start :: runningSums (start + length) lengths

@[simp] theorem length_runningSums (start : Nat) (lengths : List Nat) :
    (runningSums start lengths).length = lengths.length + 1 := by
  induction lengths generalizing start with
  | nil => rfl
  | cons length lengths ih => simp [runningSums, ih]

theorem getLast?_runningSums (start : Nat) (lengths : List Nat) :
    (runningSums start lengths).getLast? = some (lengths.foldl (· + ·) start) := by
  induction lengths generalizing start with
  | nil => simp [runningSums]
  | cons length lengths ih =>
    rw [runningSums, List.getLast?_cons, ih]
    rfl

namespace Packing

/-- The packed entries of a state. -/
def packState (P : Packing) (payload : P.Payload) (v : View) (s : StateId) : List P.Element :=
  (v.entries s).map (P.pack payload s)

/-- Refuses a state that has not exactly the number of entries the packing demands. -/
def checkState (P : Packing) (s : StateId) (entries : Nat) : Except Error Unit :=
  match P.arity with
  | .fixed k => if entries = k then .ok () else .error (.mismatch (.state s entries k P.tag))
  | .indexed => .ok ()

end Packing

namespace Store

variable (P : Packing) (w : OffsetWidth)

/-- How the states of a view are found in its store, if they fit. -/
def addressingOf (v : View) : Except Error (Addressing w) :=
  let finals := v.states.countP v.isFinal
  match P.arity with
  | .fixed k => do
    if !Arity.fills k v.numStates (v.totalArcs + finals) then
      throw (.mismatch (.total v.totalArcs finals v.numStates k P.tag))
    v.states.forM fun s => P.checkState s (v.entries s).length
    return .grouped k
  | .indexed => do
    let sums := runningSums 0 (v.states.map fun s => (v.entries s).length)
    return .indexed (Region.owned (← sums.mapM (Offset.ofNat w)))

/-- Packs every state of a view. -/
def ofView (payload : P.Payload) (v : View) : Except Error (Store P w) := do
  let addressing ← addressingOf P w v
  return {
    addressing := addressing
    elements := Region.owned (v.states.flatMap (P.packState payload v))
    start := v.start
    numStates := v.numStates
    numArcs := v.totalArcs }

end Store
end Transducer
