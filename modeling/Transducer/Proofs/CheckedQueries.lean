import Transducer.Proofs.CheckedSearch
import Transducer.Proofs.DecodedCounts
import Transducer.Summary
/-!
# Queries with every step checked

What a packed machine is asked, with the additions, differences, look-ups and unpackings written as
checked steps. A query reads the entries of one state; how an entry is unpacked is a parameter, and
is trusted for the entries of states that exist only (`Packing.Unpacks`). Main statements: of a
machine whose store holds rows, with states that can be numbered and elements that can be counted,
every query of every state number, in range or not, comes to what it comes to without the checks
(the lemmas of `Compact.Queryable`).
-/
namespace Transducer

open Checked

/-! ## Entries of a state -/

namespace Addressing

variable {w : OffsetWidth}

/-- `bounds?`, multiplying in words or looking two neighbouring offsets up. -/
def checkedBounds (a : Addressing w) (i : Nat) : Checked (Nat × Nat) := do
  let next ← word (i + 1)
  match a with
  | grouped k => return (← word (i * k), ← word (next * k))
  | indexed offsets =>
    return ((← lookup offsets.values i).val, (← lookup offsets.values next).val)

theorem checkedBounds_eq {a : Addressing w} {i start stop : Nat}
    (bounds : a.bounds? i = some (start, stop)) (next : i + 1 < wordLimit)
    (below : start < wordLimit) (below' : stop < wordLimit) :
    a.checkedBounds i = .ok (start, stop) := by
  unfold checkedBounds
  rw [word_of_lt next, ok_bind]
  cases a with
  | grouped k =>
    cases bounds
    simp only [word_of_lt below, word_of_lt below', ok_bind]
    rfl
  | indexed offsets =>
    simp only [bounds?] at bounds
    split at bounds
    · rename_i first second here after
      cases bounds
      simp only [lookup_of_getElem? here, lookup_of_getElem? after, ok_bind]
      rfl
    · cases bounds

end Addressing

namespace Store

variable {P : Packing} {w : OffsetWidth} {store : Store P w} {rows : List (List P.Element)}

def checkedWindow (store : Store P w) (s : StateId) : Checked (List P.Element) :=
  match position? s with
  | some i =>
    if i < store.numStates then do
      let (start, stop) ← store.addressing.checkedBounds i
      return slice store.elements.values start stop
    else return []
  | none => return []

/-- No state ends behind the elements, so a store of countable elements has countable bounds. -/
theorem checkedWindow_eq (holds : store.Holds rows) (small : store.numStates ≤ 2147483647)
    (few : store.numElements < wordLimit) (s : StateId) :
    store.checkedWindow s = .ok (store.window s) := by
  unfold checkedWindow window
  cases position? s with
  | none => rfl
  | some i =>
    simp only
    split
    · rename_i inside
      have total : (rows.map List.length).sum < wordLimit := by
        rw [← List.length_flatten, ← holds.elements]
        exact few
      have front (j : Nat) : ((rows.map List.length).take j).sum < wordLimit := by
        have parts := List.sum_take_add_sum_drop (rows.map List.length) j
        omega
      have bounds := holds.cuts.bounds? (i := i) (by
        rw [List.length_map, ← holds.numStates]
        exact inside)
      have next : i + 1 < wordLimit := by
        unfold wordLimit
        omega
      rw [Addressing.checkedBounds_eq bounds next (front i) (front (i + 1)), ok_bind, windowAt,
        bounds]
      rfl
    · rfl

/-- Only states that exist have entries. -/
theorem position_of_mem_window {s : StateId} {e : P.Element} (member : e ∈ store.window s) :
    ∃ i, position? s = some i ∧ i < store.numStates := by
  unfold window at member
  cases position : position? s with
  | none =>
    rw [position] at member
    cases member
  | some i =>
    rw [position] at member
    simp only at member
    split at member
    · exact ⟨i, rfl, by assumption⟩
    · cases member

theorem length_window_le (holds : store.Holds rows) (s : StateId) :
    (store.window s).length ≤ store.numElements := by
  unfold window
  cases position? s with
  | none => exact Nat.zero_le _
  | some i =>
    simp only
    split
    · rename_i inside
      rw [holds.numStates] at inside
      rw [holds.windowAt inside, numElements, holds.elements]
      exact List.Sublist.length_le (List.sublist_flatten_of_mem (List.getElem_mem inside))
    · exact Nat.zero_le _

end Store

namespace Packing

variable {P : Packing} {payload : P.Payload}
  {unpack : StateId → P.Element → Fields → Checked Arc} {s : StateId} {window : List P.Element}

/-- Unpacking the entries meets no trap. -/
def Unpacks (P : Packing) (payload : P.Payload)
    (unpack : StateId → P.Element → Fields → Checked Arc) (s : StateId)
    (window : List P.Element) : Prop :=
  ∀ e ∈ window, ∀ fields, unpack s e fields = .ok (P.unpack payload s e fields)

theorem Unpacks.tail {e : P.Element} {rest : List P.Element}
    (unpacks : P.Unpacks payload unpack s (e :: rest)) : P.Unpacks payload unpack s rest :=
  fun a later => unpacks a (List.mem_cons_of_mem e later)

theorem Unpacks.head {e : P.Element} {rest : List P.Element}
    (unpacks : P.Unpacks payload unpack s (e :: rest)) (fields : Fields) :
    unpack s e fields = .ok (P.unpack payload s e fields) :=
  unpacks e List.mem_cons_self fields

section
variable (unpack)

def checkedStartsFinal (s : StateId) (window : List P.Element) : Checked Bool :=
  match window.head? with
  | some e => do return (← unpack s e Fields.onlyInput).ilabel == noLabel
  | none => return false

/-- The entries without a final one at the front, cut off as a part of the entries. -/
def checkedArcEntries (s : StateId) (window : List P.Element) : Checked (List P.Element) := do
  if ← checkedStartsFinal unpack s window then part window 1 window.length else return window

/-- Unpacks entries from a position on, which is counted in a word. -/
def checkedArcsFrom (s : StateId) : Nat → List P.Element → Checked (List Arc)
  | _, [] => return []
  | place, e :: rest => do
    let arc ← unpack s e Fields.all
    let next ← word (place + 1)
    return arc :: (← checkedArcsFrom s next rest)

/-- `countEpsilons`, counting in a word. -/
def checkedEpsilonsFrom (s : StateId) (output sorted : Bool) :
    Nat → List P.Element → Checked Nat
  | count, [] => return count
  | count, e :: rest => do
    let arc ← unpack s e (if output then Fields.onlyOutput else Fields.onlyInput)
    let label := if output then arc.olabel else arc.ilabel
    if label = noLabel then checkedEpsilonsFrom s output sorted count rest
    else if label = epsilon then checkedEpsilonsFrom s output sorted (← word (count + 1)) rest
    else if sorted && epsilon < label then return count
    else checkedEpsilonsFrom s output sorted count rest

end

theorem checkedStartsFinal_eq (unpacks : P.Unpacks payload unpack s window) :
    checkedStartsFinal unpack s window = .ok (P.startsFinal payload s window) := by
  cases window with
  | nil => rfl
  | cons e rest =>
    simp only [checkedStartsFinal, List.head?_cons, unpacks.head, ok_bind]
    rfl

/-- A final entry at the front is there to be cut off. -/
theorem checkedArcEntries_eq (unpacks : P.Unpacks payload unpack s window) :
    checkedArcEntries unpack s window = .ok (P.arcEntries payload s window) := by
  unfold checkedArcEntries arcEntries
  rw [checkedStartsFinal_eq unpacks, ok_bind]
  cases final : P.startsFinal payload s window with
  | false => rfl
  | true =>
    cases window with
    | nil => cases final
    | cons e rest =>
      rw [if_pos rfl, part_of_le (by simp) (Nat.le_refl _)]
      simp

theorem checkedArcsFrom_eq {entries : List P.Element} {place : Nat}
    (unpacks : P.Unpacks payload unpack s entries) (few : place + entries.length < wordLimit) :
    checkedArcsFrom unpack s place entries
      = .ok (entries.map fun e => P.unpack payload s e Fields.all) := by
  induction entries generalizing place with
  | nil => rfl
  | cons e rest ih =>
    rw [List.length_cons] at few
    rw [checkedArcsFrom, unpacks.head, ok_bind, word_of_lt (by omega), ok_bind,
      ih unpacks.tail (by omega)]
    rfl

/-- The count never exceeds the number of entries looked at. -/
theorem checkedEpsilonsFrom_eq {output sorted : Bool} {count : Nat}
    (unpacks : P.Unpacks payload unpack s window) (few : count + window.length < wordLimit) :
    checkedEpsilonsFrom unpack s output sorted count window
      = .ok (count + P.countEpsilons payload s output sorted window) := by
  induction window generalizing count with
  | nil => rfl
  | cons e rest ih =>
    rw [List.length_cons] at few
    simp only [checkedEpsilonsFrom, countEpsilons, unpacks.head, ok_bind]
    generalize P.unpack payload s e (if output = true then _ else _) = arc
    generalize (if output = true then arc.olabel else arc.ilabel) = label
    split
    · exact ih unpacks.tail (by omega)
    · split
      · rw [word_of_lt (by omega), ok_bind, ih unpacks.tail (by omega)]
        congr 1
        omega
      · split
        · rfl
        · exact ih unpacks.tail (by omega)

theorem arcEntries_sublist (P : Packing) (payload : P.Payload) (s : StateId)
    (window : List P.Element) : (P.arcEntries payload s window).Sublist window := by
  unfold arcEntries
  split
  · exact List.drop_sublist 1 window
  · exact List.Sublist.refl window

end Packing

/-! ## Queries -/

namespace Compact

variable {F : Format} {c : Compact F} {rows : List (List F.packing.Element)}
  {unpack : StateId → F.packing.Element → Fields → Checked Arc}

section
variable (unpack)

def checkedFinal (c : Compact F) (s : StateId) : Checked Weight := do
  match (← c.store.checkedWindow s).head? with
  | some e =>
    let arc ← unpack s e Fields.inputAndWeight
    return if arc.ilabel = noLabel then arc.weight else Weight.zero
  | none => return Weight.zero

/-- The number of arcs, a final entry at the front taken away. -/
def checkedNumArcs (c : Compact F) (s : StateId) : Checked Nat := do
  let window ← c.store.checkedWindow s
  let final ← Packing.checkedStartsFinal unpack s window
  minus window.length final.toNat

def checkedArcs (c : Compact F) (s : StateId) : Checked (List Arc) := do
  let window ← c.store.checkedWindow s
  let entries ← Packing.checkedArcEntries unpack s window
  Packing.checkedArcsFrom unpack s 0 entries

def checkedEpsilons (c : Compact F) (output : Bool) (s : StateId) : Checked Nat := do
  let window ← c.store.checkedWindow s
  let sorted := c.declares (if output then .outputSorted else .inputSorted)
  Packing.checkedEpsilonsFrom unpack s output sorted 0 window

/-- `labelsFrom`, by the checked queries of each state passed. -/
def checkedLabelsFrom (c : Compact F) : Nat → StateId → Checked (Option (List Label))
  | 0, _ => return none
  | steps + 1, s => do
    let count ← checkedNumArcs unpack c s
    let final ← checkedFinal unpack c s
    if count = 0 then return if final.isZero then none else some []
    else if count = 1 ∧ final.isZero then
      match ← checkedArcs unpack c s with
      | [] => return none
      | arc :: _ => return (← checkedLabelsFrom c steps arc.nextstate).map (arc.ilabel :: ·)
    else return none

def checkedStringLabels (c : Compact F) : Checked (Option (List Label)) :=
  if c.store.start = noState then return none
  else checkedLabelsFrom unpack c c.store.numStates c.store.start

/-- The machine that a survey sees, state by state, with room for the targets of its arcs. -/
def checkedMachine (c : Compact F) : Checked Machine := do
  let _ ← array (24 * c.store.numStates)
  let states ← c.view.states.mapM fun s => do
    let _ ← array (4 * (← checkedNumArcs unpack c s))
    let arcs ← checkedArcs unpack c s
    return (⟨← checkedFinal unpack c s, arcs⟩ : State)
  return ⟨c.store.start, states, c.symbols⟩

/-- The survey of the machine by checked queries and checked searches. -/
def checkedSurvey (c : Compact F) : Checked UInt64 := do
  (← checkedMachine unpack c).checkedSurvey

end

theorem length_window_le (holds : c.store.Holds rows) (s : StateId) :
    (c.window s).length ≤ c.store.numElements :=
  Store.length_window_le holds s

/-- A machine whose states can be numbered and whose elements can be counted, with a way of
unpacking its entries. -/
structure Queryable (c : Compact F) (rows : List (List F.packing.Element))
    (unpack : StateId → F.packing.Element → Fields → Checked Arc) : Prop where
  holds : c.store.Holds rows
  small : c.store.numStates ≤ 2147483647
  few : c.store.numElements < wordLimit
  unpacks : ∀ s, F.packing.Unpacks c.payload unpack s (c.window s)

namespace Queryable

variable (queryable : c.Queryable rows unpack)
include queryable

theorem window_eq (s : StateId) : c.store.checkedWindow s = .ok (c.window s) :=
  Store.checkedWindow_eq queryable.holds queryable.small queryable.few s

theorem length_window_lt (s : StateId) : (c.window s).length < wordLimit :=
  Nat.lt_of_le_of_lt (length_window_le queryable.holds s) queryable.few

theorem final_eq (s : StateId) : checkedFinal unpack c s = .ok (c.final s) := by
  have unpacks := queryable.unpacks s
  unfold checkedFinal final
  rw [queryable.window_eq s, ok_bind]
  cases entries : c.window s with
  | nil => rfl
  | cons e rest =>
    rw [entries] at unpacks
    simp only [List.head?_cons, unpacks.head, ok_bind]
    rfl

theorem numArcs_eq (s : StateId) : checkedNumArcs unpack c s = .ok (c.view.numArcs s) := by
  have count : c.view.numArcs s
      = (c.window s).length - (F.packing.startsFinal c.payload s (c.window s)).toNat := by
    change (c.arcs s).length = _
    rw [arcs_eq, List.length_map, Packing.length_arcEntries]
  have front : (F.packing.startsFinal c.payload s (c.window s)).toNat ≤ (c.window s).length := by
    cases entries : c.window s with
    | nil => exact Nat.le_refl _
    | cons e rest => exact Nat.le_trans (Bool.toNat_le _) (by simp)
  unfold checkedNumArcs
  rw [queryable.window_eq s, ok_bind, Packing.checkedStartsFinal_eq (queryable.unpacks s), ok_bind,
    minus_of_le front, count]

theorem arcs_eq (s : StateId) : checkedArcs unpack c s = .ok (c.arcs s) := by
  have sublist := F.packing.arcEntries_sublist c.payload s (c.window s)
  have few : 0 + (F.packing.arcEntries c.payload s (c.window s)).length < wordLimit := by
    have shorter := sublist.length_le
    have window := queryable.length_window_lt s
    omega
  have unpacks : F.packing.Unpacks c.payload unpack s
      (F.packing.arcEntries c.payload s (c.window s)) :=
    fun e member => queryable.unpacks s e (sublist.subset member)
  unfold checkedArcs
  rw [queryable.window_eq s, ok_bind, Packing.checkedArcEntries_eq (queryable.unpacks s), ok_bind,
    Packing.checkedArcsFrom_eq unpacks few]
  rfl

theorem inputEpsilons_eq (s : StateId) :
    checkedEpsilons unpack c false s = .ok (c.inputEpsilons s) := by
  have few : 0 + (c.window s).length < wordLimit := by
    rw [Nat.zero_add]
    exact queryable.length_window_lt s
  unfold checkedEpsilons
  rw [queryable.window_eq s, ok_bind, Packing.checkedEpsilonsFrom_eq (queryable.unpacks s) few,
    Nat.zero_add]
  rfl

theorem outputEpsilons_eq (s : StateId) :
    checkedEpsilons unpack c true s = .ok (c.outputEpsilons s) := by
  have few : 0 + (c.window s).length < wordLimit := by
    rw [Nat.zero_add]
    exact queryable.length_window_lt s
  unfold checkedEpsilons
  rw [queryable.window_eq s, ok_bind, Packing.checkedEpsilonsFrom_eq (queryable.unpacks s) few,
    Nat.zero_add]
  rfl

theorem labelsFrom_eq (steps : Nat) (s : StateId) :
    checkedLabelsFrom unpack c steps s = .ok (c.view.labelsFrom steps s) := by
  induction steps generalizing s with
  | zero => rfl
  | succ steps ih =>
    unfold checkedLabelsFrom View.labelsFrom
    have count : c.view.numArcs s = (c.view.arcs s).length := rfl
    have final : c.view.isFinal s = !(c.final s).isZero := rfl
    have arcs : checkedArcs unpack c s = .ok (c.view.arcs s) := queryable.arcs_eq s
    rw [queryable.numArcs_eq s, queryable.final_eq s, ok_bind, ok_bind, count, final, arcs, ok_bind]
    cases c.view.arcs s with
    | nil => cases (c.final s).isZero <;> rfl
    | cons arc rest =>
      cases rest with
      | nil =>
        cases (c.final s).isZero with
        | false => rfl
        | true =>
          simp only [List.length_singleton, and_self, if_true, ih arc.nextstate, ok_bind]
          rfl
      | cons second rest => simp

theorem stringLabels_eq : checkedStringLabels unpack c = .ok c.view.stringLabels? := by
  have start : c.view.start = c.store.start := rfl
  unfold checkedStringLabels View.stringLabels?
  rw [start]
  by_cases nowhere : c.store.start = noState
  · rw [if_pos nowhere, if_pos nowhere]
    rfl
  · rw [if_neg nowhere, if_neg nowhere]
    exact queryable.labelsFrom_eq c.store.numStates c.store.start

theorem machine_eq (room : 4 * c.store.numElements < arrayLimit) :
    checkedMachine unpack c = .ok c.view.machine := by
  have slots : 24 * c.store.numStates < arrayLimit := by
    have small := queryable.small
    unfold arrayLimit
    omega
  have each : ∀ s ∈ c.view.states, (do
      let _ ← array (4 * (← checkedNumArcs unpack c s))
      let arcs ← checkedArcs unpack c s
      return (⟨← checkedFinal unpack c s, arcs⟩ : State) : Checked State)
      = .ok ⟨c.view.final s, c.view.arcs s⟩ := by
    intro s _
    have targets : 4 * c.view.numArcs s < arrayLimit := by
      have arcs : c.view.numArcs s ≤ (c.window s).length := by
        change (c.arcs s).length ≤ _
        rw [Compact.arcs_eq, List.length_map]
        exact (F.packing.arcEntries_sublist c.payload s (c.window s)).length_le
      have window := length_window_le queryable.holds s
      omega
    rw [queryable.numArcs_eq s, ok_bind, array_of_lt targets, ok_bind, queryable.arcs_eq s, ok_bind,
      queryable.final_eq s]
    rfl
  unfold checkedMachine
  rw [array_of_lt slots, ok_bind, mapM_of_forall each]
  rfl

theorem survey_eq (room : 4 * c.store.numElements < arrayLimit) :
    checkedSurvey unpack c = .ok c.view.survey := by
  have number : c.view.machine.numStates ≤ 2147483647 := by
    have states : c.view.machine.numStates = c.store.numStates := by
      unfold Machine.numStates View.machine
      rw [List.length_map, View.length_states]
      rfl
    rw [states]
    exact queryable.small
  unfold checkedSurvey
  rw [queryable.machine_eq room, ok_bind]
  exact Machine.checkedSurvey_eq number

end Queryable

end Compact

/-! ## Stock packings -/

/-- `unpack`, asking for the following state where the element of a string leads on. -/
def Stock.restore (k : Stock) (payload : k.packing.Payload) (s : StateId) (e : k.packing.Element)
    (fields : Fields) : Checked Arc := do
  let arc := k.packing.unpack payload s e fields
  if k.keepsTarget = false ∧ arc.ilabel ≠ noLabel then
    return { arc with nextstate := ← following s }
  else return arc

theorem Stock.restore_eq (k : Stock) (payload : k.packing.Payload) {s : StateId}
    (next : s.toInt + 1 < 2147483648) (e : k.packing.Element) (fields : Fields) :
    k.restore payload s e fields = .ok (k.packing.unpack payload s e fields) := by
  unfold restore
  by_cases leads : k.keepsTarget = false ∧ (k.packing.unpack payload s e fields).ilabel ≠ noLabel
  · obtain ⟨string, goes⟩ := leads
    have target := nextstate_unpack string payload s e fields
    rw [Packing.followingState, if_neg goes] at target
    simp only [string, ne_eq, goes, not_false_eq_true, and_self, if_true, following_of_lt next,
      ok_bind, ← target]
    rfl
  · rw [if_neg leads]
    rfl

end Transducer
