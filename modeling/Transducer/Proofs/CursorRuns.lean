import Transducer.Cursor
import Transducer.Proofs.CheckedQueries
/-!
# Runs of a cursor

A cursor is moved by position and taken from arc by arc, in any order, and shows as much of an arc
as it is asked for. It is set here beside a place among decoded arcs, which knows nothing of packed
entries (`Place`), and beside a cursor on words that keeps its selection as bits and traps where a
number leaves its word (`WordCursor`). A call keeps the three together (`Cursor.Stands.respond`,
`WordCursor.Mirrors.respond`), so a sequence of calls does. Main statement: over the entries of a
state of a stock packing, every sequence of calls is answered without a trap and as the decoded arcs
say, and taking all arcs of a new cursor gives the decoded arcs (`cursor_over_arcs`).
-/
namespace Transducer

open Checked

/-! ## Selections as bits -/

namespace Fields

/-- The bits of all fields. -/
def wordOfAll : UInt32 := 15

/-- The selection that the bits of a word make; bits that stand for no field select nothing. -/
def ofWord (word : UInt32) : Fields := ofBits word.toNat

/-- `replace` on words; a complement has the bits of fields only. -/
def replaceWord (a b mask : UInt32) : UInt32 :=
  (a &&& (~~~mask &&& wordOfAll)) ||| (b &&& mask &&& wordOfAll)

theorem testBit_wordOfAll (i : Nat) : wordOfAll.toNat.testBit i = decide (i < 4) :=
  Nat.testBit_two_pow_sub_one 4 i

theorem testBit_replaceWord (a b mask : UInt32) (i : Nat) :
    (replaceWord a b mask).toNat.testBit i
      = (decide (i < 4) && (a.toNat.testBit i && !mask.toNat.testBit i
        || b.toNat.testBit i && mask.toNat.testBit i)) := by
  have flipped : (~~~mask).toNat.testBit i = (decide (i < 32) && !mask.toNat.testBit i) := by
    rw [UInt32.toNat_not, UInt32.size, Nat.sub_sub, Nat.add_comm 1]
    exact Nat.testBit_two_pow_sub_succ mask.toNat_lt i
  simp only [replaceWord, UInt32.toNat_or, UInt32.toNat_and, Nat.testBit_or, Nat.testBit_and,
    flipped, testBit_wordOfAll]
  by_cases field : i < 4
  · have inside : i < 32 := by omega
    simp [field, inside]
  · simp [field]

theorem replaceWord_and_wordOfAll (a b mask : UInt32) :
    replaceWord a b mask &&& wordOfAll = replaceWord a b mask := by
  refine UInt32.toNat_inj.1 (Nat.eq_of_testBit_eq fun i => ?_)
  rw [UInt32.toNat_and, Nat.testBit_and, testBit_replaceWord, testBit_wordOfAll, Bool.and_comm,
    ← Bool.and_assoc, Bool.and_self]

theorem ofWord_replaceWord (a b mask : UInt32) :
    ofWord (replaceWord a b mask) = (ofWord a).replace (ofWord b) (ofWord mask) := by
  simp only [ofWord, ofBits, replace, union, inter, compl, testBit_replaceWord, Nat.reduceLT,
    decide_true, Bool.true_and]

theorem ofWord_wordOfAll : ofWord wordOfAll = all := by decide

end Fields

/-! ## What an arc shows of its fields -/

/-- The arcs have the selected fields in common. -/
structure Arc.AgreeOn (fields : Fields) (a b : Arc) : Prop where
  ilabel : fields.ilabel = true → a.ilabel = b.ilabel
  olabel : fields.olabel = true → a.olabel = b.olabel
  weight : fields.weight = true → a.weight = b.weight
  nextstate : fields.nextstate = true → a.nextstate = b.nextstate

/-- The weight alone is left out where it is not asked for. -/
theorem Stock.unpack_agreeOn (k : Stock) (payload : k.packing.Payload) (s : StateId)
    (e : k.packing.Element) (fields : Fields) : Arc.AgreeOn fields
      (k.packing.unpack payload s e fields) (k.packing.unpack payload s e Fields.all) := by
  cases k with
  | string | unweightedAcceptor | unweighted =>
    exact ⟨fun _ => rfl, fun _ => rfl, fun _ => rfl, fun _ => rfl⟩
  | weightedString | acceptor =>
    exact ⟨fun _ => rfl, fun _ => rfl, fun asked => if_pos asked, fun _ => rfl⟩

/-- The arcs of a state: its entries with all their fields, but for a final one at the front. -/
def Packing.decodedArcs (P : Packing) (payload : P.Payload) (s : StateId)
    (window : List P.Element) : List Arc :=
  match window.map fun e => P.unpack payload s e Fields.all with
  | [] => []
  | first :: rest => if first.ilabel = noLabel then rest else first :: rest

/-- The cursor asks for the label of the front entry only, which is the label it has in full. -/
theorem Stock.map_arcEntries (k : Stock) (payload : k.packing.Payload) (s : StateId)
    (window : List k.packing.Element) :
    (k.packing.arcEntries payload s window).map (fun e => k.packing.unpack payload s e Fields.all)
      = k.packing.decodedArcs payload s window := by
  cases window with
  | nil => rfl
  | cons e rest =>
    have label := (k.unpack_agreeOn payload s e Fields.onlyInput).ilabel rfl
    simp only [Packing.arcEntries, Packing.startsFinal, Packing.isFinalEntry, Packing.inputLabel,
      List.head?_cons, Option.any_some, beq_iff_eq, List.drop_succ_cons, List.drop_zero,
      Packing.decodedArcs, List.map_cons, label]
    split <;> rfl

/-! ## Calls -/

/-- A call of a cursor; selections are given as bits. -/
inductive CursorCall where
  | value
  | next
  | advance
  | seek (position : Nat)
  | reset
  | setFields (fields mask : UInt32)
  | bounds
  | count
  | done
  deriving DecidableEq, Repr

inductive CursorAnswer where
  | silent
  | arc (shown : Option Arc)
  /-- A lower and an upper bound of the number of arcs ahead. -/
  | bounds (lower : Nat) (upper : Option Nat)
  | count (n : Nat)
  | truth (b : Bool)
  deriving DecidableEq, Repr

/-! ## Places among arcs -/

/-- A position among arcs and the fields that are selected there. -/
structure Place where
  position : Nat
  selected : Fields
  deriving DecidableEq, Repr

namespace Place

/-- The place in front of all arcs, with all fields. -/
def front : Place := ⟨0, Fields.all⟩

/-- The place after a call, among `size` arcs. -/
def after (size : Nat) (place : Place) : CursorCall → Place
  | .next =>
    if place.position < size then { place with position := place.position + 1 } else place
  | .advance => { place with position := place.position + 1 }
  | .seek position => { place with position := position }
  | .reset => { place with position := 0 }
  | .setFields fields mask =>
    { place with selected := place.selected.replace (Fields.ofWord fields) (Fields.ofWord mask) }
  | .value | .bounds | .count | .done => place

/-- Nothing is shown from behind the last arc; elsewhere something is, which has the selected fields
in common with the arc at the position. -/
def Shows (arcs : List Arc) (place : Place) (shown : Option Arc) : Prop :=
  (shown = none ↔ arcs.length ≤ place.position)
    ∧ ∀ a, shown = some a → ∃ arc, arcs[place.position]? = some arc
      ∧ Arc.AgreeOn place.selected a arc

/-- Whether an answer to a call is right. -/
def Allows (arcs : List Arc) (place : Place) : CursorCall → CursorAnswer → Prop
  | .value, .arc shown | .next, .arc shown => place.Shows arcs shown
  | .bounds, .bounds lower upper => lower = arcs.length - place.position ∧ upper = some lower
  | .count, .count n => n = arcs.length - place.position
  | .done, .truth b => b = true ↔ arcs.length ≤ place.position
  | .advance, .silent | .seek _, .silent | .reset, .silent | .setFields _ _, .silent => True
  | _, _ => False

/-- Calls one after the other, each answered right. -/
inductive Tells (arcs : List Arc) : Place → List CursorCall → List CursorAnswer → Place → Prop where
  | nil (place : Place) : Tells arcs place [] [] place
  | cons {place last : Place} {call : CursorCall} {answer : CursorAnswer}
      {calls : List CursorCall} {answers : List CursorAnswer} :
      place.Allows arcs call answer → Tells arcs (place.after arcs.length call) calls answers last →
      Tells arcs place (call :: calls) (answer :: answers) last

/-- No call moves to a position outside a word. -/
def Stays (size : Nat) : Place → List CursorCall → Prop
  | _, [] => True
  | place, call :: calls =>
    (place.after size call).position < wordLimit ∧ Stays size (place.after size call) calls

instance decidableStays (size : Nat) :
    (place : Place) → (calls : List CursorCall) → Decidable (place.Stays size calls)
  | _, [] => isTrue trivial
  | place, call :: calls =>
    have := decidableStays size (place.after size call) calls
    inferInstanceAs (Decidable (_ ∧ _))

end Place

/-! ## A cursor and its place -/

namespace Cursor

variable {P : Packing}

def respond (c : Cursor P) : CursorCall → CursorAnswer × Cursor P
  | .value => (.arc c.value?, c)
  | .next => (.arc c.next.1, c.next.2)
  | .advance => (.silent, c.advance)
  | .seek position => (.silent, c.seek position)
  | .reset => (.silent, c.reset)
  | .setFields fields mask =>
    (.silent, c.setFields (Fields.ofWord fields) (Fields.ofWord mask))
  | .bounds => (.bounds c.remaining (some c.remaining), c)
  | .count => (.count c.remaining, c)
  | .done => (.truth c.done, c)

def respondAll (c : Cursor P) : List CursorCall → List CursorAnswer × Cursor P
  | [] => ([], c)
  | call :: calls =>
    let rest := (c.respond call).2.respondAll calls
    ((c.respond call).1 :: rest.1, rest.2)

/-- The cursor stands at a place among arcs: in full, its elements are the arcs, and in part they
have in common with them what is asked for. -/
structure Stands (c : Cursor P) (arcs : List Arc) (place : Place) : Prop where
  position : c.position = place.position
  fields : c.fields = place.selected
  decoded : c.elements.map (fun e => P.unpack c.payload c.state e Fields.all) = arcs
  agree : ∀ e ∈ c.elements, ∀ fields, Arc.AgreeOn fields (P.unpack c.payload c.state e fields)
    (P.unpack c.payload c.state e Fields.all)

namespace Stands

variable {c : Cursor P} {arcs : List Arc} {place : Place}

theorem length_elements (stands : c.Stands arcs place) : c.elements.length = arcs.length := by
  rw [← stands.decoded, List.length_map]

theorem remaining_eq (stands : c.Stands arcs place) :
    c.remaining = arcs.length - place.position := by
  rw [remaining, stands.length_elements, stands.position]

theorem done_iff (stands : c.Stands arcs place) : c.done = true ↔ arcs.length ≤ place.position := by
  rw [done, decide_eq_true_iff, stands.length_elements, stands.position]

theorem shows (stands : c.Stands arcs place) : place.Shows arcs c.value? := by
  constructor
  · rw [value?, Option.map_eq_none_iff, List.getElem?_eq_none_iff, stands.length_elements,
      stands.position]
  · intro a shown
    obtain ⟨e, here, rfl⟩ := Option.map_eq_some_iff.1 shown
    refine ⟨P.unpack c.payload c.state e Fields.all, ?_, ?_⟩
    · rw [← stands.decoded, List.getElem?_map, ← stands.position, here]
      rfl
    · rw [← stands.fields]
      exact stands.agree e (List.mem_of_getElem? here) c.fields

theorem seek (stands : c.Stands arcs place) (position : Nat) :
    (c.seek position).Stands arcs { place with position := position } :=
  { stands with position := rfl }

theorem advance (stands : c.Stands arcs place) :
    c.advance.Stands arcs { place with position := place.position + 1 } := by
  rw [← stands.position]
  exact stands.seek (c.position + 1)

theorem next (stands : c.Stands arcs place) :
    place.Shows arcs c.next.1 ∧ c.next.2.Stands arcs (place.after arcs.length .next) := by
  have shows := stands.shows
  simp only [Cursor.next, Place.after]
  cases shown : c.value? with
  | none =>
    rw [shown] at shows
    rw [if_neg (Nat.not_lt.2 (shows.1.1 rfl))]
    exact ⟨shows, stands⟩
  | some a =>
    rw [shown] at shows
    have inside : place.position < arcs.length :=
      Nat.not_le.1 fun past => Option.some_ne_none a (shows.1.2 past)
    rw [if_pos inside]
    exact ⟨shows, stands.advance⟩

/-- Whatever is called, the answer is right and the cursor stands at the place after the call. -/
theorem respond (stands : c.Stands arcs place) (call : CursorCall) :
    place.Allows arcs call (c.respond call).1
      ∧ (c.respond call).2.Stands arcs (place.after arcs.length call) := by
  cases call with
  | value => exact ⟨stands.shows, stands⟩
  | next => exact stands.next
  | advance => exact ⟨trivial, stands.advance⟩
  | seek position => exact ⟨trivial, stands.seek position⟩
  | reset => exact ⟨trivial, stands.seek 0⟩
  | setFields fields mask =>
    refine ⟨trivial, { stands with fields := ?_ }⟩
    simp only [Cursor.respond, Cursor.setFields, Place.after, stands.fields]
  | bounds => exact ⟨⟨stands.remaining_eq, rfl⟩, stands⟩
  | count => exact ⟨stands.remaining_eq, stands⟩
  | done => exact ⟨stands.done_iff, stands⟩

theorem respondAll (stands : c.Stands arcs place) (calls : List CursorCall) :
    ∃ last, Place.Tells arcs place calls (c.respondAll calls).1 last
      ∧ (c.respondAll calls).2.Stands arcs last := by
  induction calls generalizing c place with
  | nil => exact ⟨place, .nil place, stands⟩
  | cons call calls ih =>
    obtain ⟨allowed, stands⟩ := stands.respond call
    obtain ⟨last, tells, stands⟩ := ih stands
    exact ⟨last, .cons allowed tells, stands⟩

end Stands

end Cursor

/-! ## A cursor on words -/

/-- A cursor whose selection is a word. -/
structure WordCursor (P : Packing) where
  state : StateId
  elements : List P.Element
  position : Nat
  fields : UInt32

namespace WordCursor

variable {P : Packing}

/-- How many arcs are ahead, none from behind the last. -/
def remaining (w : WordCursor P) : Nat := w.elements.length - w.position

def advance (w : WordCursor P) : Checked (WordCursor P) := do
  return { w with position := ← word (w.position + 1) }

section
variable (unpack : StateId → P.Element → Fields → Checked Arc)

def start (s : StateId) (window : List P.Element) : Checked (WordCursor P) := do
  return ⟨s, ← P.checkedArcEntries unpack s window, 0, Fields.wordOfAll⟩

def value? (w : WordCursor P) : Checked (Option Arc) :=
  match w.elements[w.position]? with
  | some e => do return some (← unpack w.state e (Fields.ofWord w.fields))
  | none => return none

def next (w : WordCursor P) : Checked (Option Arc × WordCursor P) := do
  match ← w.value? unpack with
  | some a => return (some a, ← w.advance)
  | none => return (none, w)

def respond (w : WordCursor P) : CursorCall → Checked (CursorAnswer × WordCursor P)
  | .value => do return (.arc (← w.value? unpack), w)
  | .next => do
    let (shown, w) ← w.next unpack
    return (.arc shown, w)
  | .advance => do return (.silent, ← w.advance)
  | .seek position => do return (.silent, { w with position := ← word position })
  | .reset => return (.silent, { w with position := 0 })
  | .setFields fields mask =>
    return (.silent, { w with fields := Fields.replaceWord w.fields fields mask })
  | .bounds => return (.bounds w.remaining (some w.remaining), w)
  | .count => return (.count w.remaining, w)
  | .done => return (.truth (w.elements.length ≤ w.position), w)

def respondAll (w : WordCursor P) : List CursorCall → Checked (List CursorAnswer × WordCursor P)
  | [] => return ([], w)
  | call :: calls => do
    let (answer, w) ← w.respond unpack call
    let (answers, w) ← w.respondAll calls
    return (answer :: answers, w)

/-- Taking arcs until there is none left gives these arcs. -/
inductive Collects : WordCursor P → List Arc → Prop where
  | finish {w last : WordCursor P} : w.next unpack = .ok (none, last) → Collects w []
  | more {w after : WordCursor P} {a : Arc} {arcs : List Arc} :
      w.next unpack = .ok (some a, after) → Collects after arcs → Collects w (a :: arcs)

end

/-- The cursor on words has the parts of a cursor, its word has bits of fields only, and unpacking
its elements meets no trap. -/
structure Mirrors (w : WordCursor P) (unpack : StateId → P.Element → Fields → Checked Arc)
    (c : Cursor P) : Prop where
  state : w.state = c.state
  elements : w.elements = c.elements
  position : w.position = c.position
  fields : Fields.ofWord w.fields = c.fields
  inside : w.fields &&& Fields.wordOfAll = w.fields
  unpacks : P.Unpacks c.payload unpack c.state c.elements

namespace Mirrors

variable {w : WordCursor P} {unpack : StateId → P.Element → Fields → Checked Arc} {c : Cursor P}

theorem start {payload : P.Payload} {s : StateId} {window : List P.Element} (sorted : Bool)
    (unpacks : P.Unpacks payload unpack s window) :
    ∃ w, WordCursor.start unpack s window = .ok w
      ∧ w.Mirrors unpack (Cursor.start payload s window sorted) := by
  refine ⟨⟨s, P.arcEntries payload s window, 0, Fields.wordOfAll⟩, ?_, ?_⟩
  · rw [WordCursor.start, Packing.checkedArcEntries_eq unpacks, ok_bind]
    rfl
  · exact ⟨rfl, rfl, rfl, Fields.ofWord_wordOfAll, UInt32.and_self, fun e member =>
      unpacks e ((P.arcEntries_sublist payload s window).subset member)⟩

theorem remaining_eq (mirrors : w.Mirrors unpack c) : w.remaining = c.remaining := by
  rw [WordCursor.remaining, Cursor.remaining, mirrors.elements, mirrors.position]

theorem value?_eq (mirrors : w.Mirrors unpack c) : w.value? unpack = .ok c.value? := by
  unfold WordCursor.value? Cursor.value?
  rw [mirrors.elements, mirrors.position, mirrors.state, mirrors.fields]
  cases here : c.elements[c.position]? with
  | none => rfl
  | some e =>
    simp only [mirrors.unpacks e (List.mem_of_getElem? here), ok_bind]
    rfl

theorem seek (mirrors : w.Mirrors unpack c) (position : Nat) :
    { w with position := position }.Mirrors unpack (c.seek position) :=
  { mirrors with position := rfl }

theorem advance (mirrors : w.Mirrors unpack c) (fits : c.position + 1 < wordLimit) :
    ∃ w', w.advance = .ok w' ∧ w'.Mirrors unpack c.advance := by
  refine ⟨{ w with position := c.position + 1 }, ?_, mirrors.seek (c.position + 1)⟩
  rw [WordCursor.advance, mirrors.position, word_of_lt fits]
  rfl

theorem next (mirrors : w.Mirrors unpack c) (fits : c.next.2.position < wordLimit) :
    ∃ w', w.next unpack = .ok (c.next.1, w') ∧ w'.Mirrors unpack c.next.2 := by
  unfold WordCursor.next
  rw [mirrors.value?_eq, ok_bind]
  unfold Cursor.next at fits ⊢
  cases shown : c.value? with
  | none => exact ⟨w, rfl, mirrors⟩
  | some a =>
    rw [shown] at fits
    obtain ⟨w', advanced, mirrors⟩ := mirrors.advance fits
    refine ⟨w', ?_, mirrors⟩
    simp only [advanced, ok_bind]
    rfl

/-- A call that does not move outside a word is answered without a trap, and as the cursor does. -/
theorem respond (mirrors : w.Mirrors unpack c) {call : CursorCall}
    (fits : (c.respond call).2.position < wordLimit) :
    ∃ w', w.respond unpack call = .ok ((c.respond call).1, w')
      ∧ w'.Mirrors unpack (c.respond call).2 := by
  cases call with
  | value =>
    refine ⟨w, ?_, mirrors⟩
    rw [WordCursor.respond, mirrors.value?_eq]
    rfl
  | next =>
    obtain ⟨w', stepped, mirrors⟩ := mirrors.next fits
    refine ⟨w', ?_, mirrors⟩
    rw [WordCursor.respond, stepped]
    rfl
  | advance =>
    obtain ⟨w', stepped, mirrors⟩ := mirrors.advance fits
    refine ⟨w', ?_, mirrors⟩
    rw [WordCursor.respond, stepped]
    rfl
  | seek position =>
    have small : position < wordLimit := fits
    refine ⟨{ w with position := position }, ?_, mirrors.seek position⟩
    rw [WordCursor.respond, word_of_lt small]
    rfl
  | reset => exact ⟨{ w with position := 0 }, rfl, mirrors.seek 0⟩
  | setFields fields mask =>
    refine ⟨{ w with fields := Fields.replaceWord w.fields fields mask }, rfl,
      { mirrors with fields := ?_, inside := Fields.replaceWord_and_wordOfAll _ _ _ }⟩
    rw [Fields.ofWord_replaceWord, mirrors.fields]
    rfl
  | bounds =>
    refine ⟨w, ?_, mirrors⟩
    rw [WordCursor.respond, mirrors.remaining_eq]
    rfl
  | count =>
    refine ⟨w, ?_, mirrors⟩
    rw [WordCursor.respond, mirrors.remaining_eq]
    rfl
  | done =>
    refine ⟨w, ?_, mirrors⟩
    rw [WordCursor.respond, mirrors.elements, mirrors.position]
    rfl

theorem respondAll {arcs : List Arc} {place : Place} {calls : List CursorCall}
    (mirrors : w.Mirrors unpack c) (stands : c.Stands arcs place)
    (stays : place.Stays arcs.length calls) :
    ∃ w', w.respondAll unpack calls = .ok ((c.respondAll calls).1, w')
      ∧ w'.Mirrors unpack (c.respondAll calls).2 := by
  induction calls generalizing w c place with
  | nil => exact ⟨w, rfl, mirrors⟩
  | cons call calls ih =>
    obtain ⟨fits, stays⟩ := stays
    have after := (stands.respond call).2
    rw [← after.position] at fits
    obtain ⟨next, answered, mirrors⟩ := mirrors.respond fits
    obtain ⟨last, rest, mirrors⟩ := ih mirrors after stays
    refine ⟨last, ?_, mirrors⟩
    rw [WordCursor.respondAll, answered, ok_bind]
    simp only [rest, ok_bind]
    rfl

/-- Each arc that is taken is the first of those ahead. -/
theorem collects (mirrors : w.Mirrors unpack c) (few : c.elements.length < wordLimit) :
    w.Collects unpack c.rest.1 := by
  unfold Cursor.rest
  generalize ahead : c.elements.drop c.position = elements
  induction elements generalizing w c with
  | nil =>
    have shown : c.value? = none := by
      rw [Cursor.value?, List.getElem?_eq_none (List.drop_eq_nil_iff.1 ahead)]
      rfl
    have stepped : w.next unpack = .ok (none, w) := by
      rw [WordCursor.next, mirrors.value?_eq, shown]
      rfl
    exact .finish stepped
  | cons e elements ih =>
    have here : c.elements[c.position]? = some e := by
      rw [← Nat.add_zero c.position, ← List.getElem?_drop, ahead]
      rfl
    have next : c.next = (some (P.unpack c.payload c.state e c.fields), c.advance) := by
      rw [Cursor.next, Cursor.value?, here]
      rfl
    have inside := (List.getElem?_eq_some_iff.1 here).1
    have stays : c.next.2.position < wordLimit := by
      rw [next]
      exact Nat.lt_of_le_of_lt inside few
    obtain ⟨after, stepped, mirrors⟩ := mirrors.next stays
    rw [next] at stepped mirrors
    have later : c.advance.elements.drop c.advance.position = elements := by
      rw [Cursor.advance, ← List.tail_drop, ahead]
      rfl
    exact .more stepped (ih (c := c.advance) mirrors few later)

end Mirrors

end WordCursor

/-! ## Cursors of the stock packings -/

theorem Stock.restore_unpacks (k : Stock) (payload : k.packing.Payload) {s : StateId}
    (below : s < Int32.maxValue) (window : List k.packing.Element) :
    k.packing.Unpacks payload (k.restore payload) s window := by
  intro e member fields
  have small : s.toInt < 2147483647 := Int32.lt_iff_toInt_lt.1 below
  exact k.restore_eq payload (by omega) e fields

theorem Stock.stands_start (k : Stock) (payload : k.packing.Payload) (s : StateId)
    (window : List k.packing.Element) (sorted : Bool) :
    (Cursor.start payload s window sorted).Stands (k.packing.decodedArcs payload s window)
      Place.front :=
  ⟨rfl, rfl, k.map_arcEntries payload s window,
    fun e _ fields => k.unpack_agreeOn payload s e fields⟩

/-- Calls of every kind, in any order, are answered without a trap as a place among the decoded
arcs says, the selection never having a bit that stands for no field; and the arcs taken from a new
cursor one after the other are the decoded arcs. -/
theorem cursor_over_arcs (k : Stock) (payload : k.packing.Payload) {s : StateId}
    (below : s < Int32.maxValue) (window : List k.packing.Element) (sorted : Bool) :
    ∃ w, WordCursor.start (k.restore payload) s window = .ok w
      ∧ (∀ calls, Place.front.Stays (k.packing.decodedArcs payload s window).length calls →
        ∃ answers last place, w.respondAll (k.restore payload) calls = .ok (answers, last)
          ∧ ((Cursor.start payload s window sorted).respondAll calls).1 = answers
          ∧ Place.Tells (k.packing.decodedArcs payload s window) Place.front calls answers place
          ∧ last.position = place.position
          ∧ Fields.ofWord last.fields = place.selected
          ∧ last.fields &&& Fields.wordOfAll = last.fields)
      ∧ (window.length < wordLimit →
        w.Collects (k.restore payload) (k.packing.decodedArcs payload s window))
      ∧ (Cursor.start payload s window sorted).rest.1
        = k.packing.decodedArcs payload s window := by
  obtain ⟨w, started, mirrors⟩ :=
    WordCursor.Mirrors.start sorted (k.restore_unpacks payload below window)
  have stands := k.stands_start payload s window sorted
  have rest : (Cursor.start payload s window sorted).rest.1
      = k.packing.decodedArcs payload s window := stands.decoded
  refine ⟨w, started, fun calls stays => ?_, fun few => ?_, rest⟩
  · obtain ⟨last, answered, mirrors⟩ := mirrors.respondAll stands stays
    obtain ⟨place, tells, stands⟩ := stands.respondAll calls
    exact ⟨_, last, place, answered, rfl, tells, mirrors.position.trans stands.position,
      mirrors.fields.trans stands.fields, mirrors.inside⟩
  · have fewer := (k.packing.arcEntries_sublist payload s window).length_le
    rw [← rest]
    exact mirrors.collects (Nat.lt_of_le_of_lt fewer few)

/-- A final entry and two arcs, of which the weights are left out, put back and left out of what is
asked for, and from which the cursor is moved away. -/
theorem cursor_over_arcs_acceptor :
    let window : List WeightedLabelState :=
      [⟨noLabel, Weight.one, noState⟩, ⟨1, Weight.zero, 2⟩, ⟨3, Weight.zero, 0⟩]
    let arcs : List Arc := [⟨1, 1, Weight.zero, 2⟩, ⟨3, 3, Weight.zero, 0⟩]
    let calls : List CursorCall :=
      [.value, .setFields 1 15, .next, .seek 7, .next, .bounds, .reset, .setFields 4 20, .next,
        .setFields 0 4, .value, .advance, .done]
    ∃ w answers last place, WordCursor.start (Stock.acceptor.restore ()) 3 window = .ok w
      ∧ w.respondAll (Stock.acceptor.restore ()) calls = .ok (answers, last)
      ∧ Place.Tells arcs Place.front calls answers place
      ∧ w.Collects (Stock.acceptor.restore ()) arcs := by
  intro window arcs calls
  obtain ⟨w, started, told, collected, -⟩ :=
    cursor_over_arcs .acceptor () (s := 3) (by decide) window true
  obtain ⟨answers, last, place, answered, -, tells, -⟩ := told calls (by decide)
  exact ⟨w, answers, last, place, started, answered, tells, collected (by decide)⟩

end Transducer
