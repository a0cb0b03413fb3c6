import Transducer.Store
/-!
# Stores from packed elements

A store can be built from elements that are already packed. With a fixed number of elements for
each state they are cut into groups; where that number is one, the end of a string is added if
it is missing. Otherwise a final entry starts each state and is kept only if its weight is not
`zero`, and every arc must lead to one of the states.
-/
namespace Transducer.Store

variable (P : Packing) (w : OffsetWidth) (payload : P.Payload)

/-- Where a machine with some states starts. -/
def firstState (numStates : Nat) : StateId := if numStates = 0 then noState else 0

/-- The elements of a string, its end added if it is missing. -/
def terminated (elements : List P.Element) : List P.Element :=
  let ended := elements.getLast?.any
    (P.isFinalEntry payload (stateAt elements.length - 1))
  if ended then elements
  else elements ++ [P.pack payload (stateAt elements.length) (Arc.superfinal Weight.one)]

/-- Cuts elements into states of `k`. -/
def ofGroups (k : Nat) (elements : List P.Element) : Except Error (Store P w) :=
  let elements := if k = 1 then terminated P payload elements else elements
  if k = 0 ∨ elements.length % k ≠ 0 then
    .error (.illFormed (.remainder elements.length k))
  else
    let numStates := elements.length / k
    .ok {
      addressing := .grouped k
      elements := Region.owned elements
      start := firstState numStates
      numStates := numStates
      numArcs := elements.zipIdx.countP fun (e, i) =>
        !P.isFinalEntry payload (stateAt (i / k)) e }

/-- The offsets and elements gathered from a sequence, and how many of them are arcs. -/
structure Gathered where
  offsets : List (Offset w)
  elements : List P.Element
  numArcs : Nat

/-- Goes through a sequence of elements, `states` states having been opened and `kept` elements
kept before it. -/
def gather (states kept : Nat) : List P.Element → Except Error (Gathered P w)
  | [] => do return ⟨[← Offset.ofNat w kept], [], 0⟩
  | e :: rest => do
    let arc := P.unpack payload (stateAt states - 1) e Fields.inputAndWeight
    if arc.ilabel = noLabel then
      let offset ← Offset.ofNat w kept
      if arc.weight.isZero then
        let after ← gather (states + 1) kept rest
        return { after with offsets := offset :: after.offsets }
      else
        let after ← gather (states + 1) (kept + 1) rest
        return { after with offsets := offset :: after.offsets, elements := e :: after.elements }
    else if states = 0 then throw (.illFormed .arcBeforeState)
    else
      let after ← gather states (kept + 1) rest
      return { after with elements := e :: after.elements, numArcs := after.numArcs + 1 }

/-- Refuses an arc of the state at position `i` that leads to none of the states. -/
def checkTarget (numStates i : Nat) (e : P.Element) : Except Error Unit :=
  let arc := P.unpack payload (stateAt i) e Fields.inputAndTarget
  let inside := (position? arc.nextstate).any (· < numStates)
  if arc.ilabel = noLabel ∨ inside then .ok ()
  else .error (.illFormed (.target i arc.nextstate numStates))

/-- Gathers elements into states that begin with a final entry. -/
def ofMarked (elements : List P.Element) : Except Error (Store P w) := do
  let gathered ← gather P w payload 0 0 elements
  let numStates := gathered.offsets.length - 1
  let store : Store P w := {
    addressing := .indexed (Region.owned gathered.offsets)
    elements := Region.owned gathered.elements
    start := firstState numStates
    numStates := numStates
    numArcs := gathered.numArcs }
  (List.range numStates).forM fun i =>
    (store.windowAt i).forM (checkTarget P payload numStates i)
  return store

/-- The store of packed elements. -/
def ofElements (elements : List P.Element) : Except Error (Store P w) :=
  match P.arity with
  | .fixed k => ofGroups P w payload k elements
  | .indexed => ofMarked P w payload elements

end Transducer.Store
