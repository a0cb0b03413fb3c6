import Transducer.Packing
/-!
# Cursors over the arcs of a state

A cursor stands at a position among the packed arcs of one state, past the end too, and decodes
the selected fields of the arc under it. A label is sought by halving where the arcs are known
to ascend, and from the front otherwise. Main statements: halving ends inside its range, and how
many arcs are still ahead.
-/
namespace Transducer

/-- The position, in a range of `size` places from `base`, after the last place at which the
test holds, found by halving; the test must hold before that place and fail after it. -/
def halving (test : Nat → Bool) (base size : Nat) : Nat :=
  if size ≤ 1 then if size = 1 ∧ test base then base + 1 else base
  else
    let half := size / 2
    halving test (if test (base + half) then base + half else base) (size - half)
termination_by size

theorem halving_bounds (test : Nat → Bool) (base size : Nat) :
    base ≤ halving test base size ∧ halving test base size ≤ base + size := by
  fun_induction halving test base size with
  | case1 base size small holds => omega
  | case2 base size small fails => omega
  | case3 base size large half ih =>
    simp only [half] at ih ⊢
    by_cases holds : test (base + size / 2) = true <;> simp [holds] at ih ⊢ <;> omega

structure Cursor (P : Packing) where
  payload : P.Payload
  state : StateId
  elements : List P.Element
  position : Nat
  fields : Fields
  sorted : Bool

namespace Cursor

variable {P : Packing}

/-- A cursor at the first arc among the entries of a state. `sorted` promises that the input
labels of the arcs ascend. -/
def start (payload : P.Payload) (s : StateId) (window : List P.Element) (sorted : Bool) :
    Cursor P :=
  ⟨payload, s, P.arcEntries payload s window, 0, Fields.all, sorted⟩

def numArcs (c : Cursor P) : Nat := c.elements.length

def done (c : Cursor P) : Bool := c.elements.length ≤ c.position

/-- The arc under the cursor with the selected fields. -/
def value? (c : Cursor P) : Option Arc :=
  c.elements[c.position]?.map fun e => P.unpack c.payload c.state e c.fields

def advance (c : Cursor P) : Cursor P := { c with position := c.position + 1 }

def reset (c : Cursor P) : Cursor P := { c with position := 0 }

def seek (c : Cursor P) (position : Nat) : Cursor P := { c with position := position }

/-- Selects the fields of `mask` as `fields` has them. -/
def setFields (c : Cursor P) (fields mask : Fields) : Cursor P :=
  { c with fields := c.fields.replace fields mask }

/-- The arc under the cursor, and the cursor after it; at the end it stays. -/
def next (c : Cursor P) : Option Arc × Cursor P :=
  match c.value? with
  | some arc => (some arc, c.advance)
  | none => (none, c)

/-- How many arcs are ahead. -/
def remaining (c : Cursor P) : Nat := c.elements.length - c.position

/-- The arcs ahead, and the cursor after them. -/
def rest (c : Cursor P) : List Arc × Cursor P :=
  ((c.elements.drop c.position).map fun e => P.unpack c.payload c.state e c.fields,
    { c with position := max c.position c.elements.length })

/-- The position of the first arc with an input label, if there is one. -/
def find? (c : Cursor P) (label : Label) : Option Nat :=
  let labelAt := P.inputLabel c.payload c.state
  if c.sorted then
    let place := halving (fun i => c.elements[i]?.any fun e => labelAt e < label) 0
      c.elements.length
    if c.elements[place]?.any fun e => labelAt e == label then some place else none
  else c.elements.findIdx? fun e => labelAt e == label

/-- Moves to the first arc with an input label, or to the end if there is none. -/
def seekLabel (c : Cursor P) (label : Label) : Bool × Cursor P :=
  match c.find? label with
  | some place => (true, c.seek place)
  | none => (false, c.seek c.elements.length)

theorem next_of_value {c : Cursor P} {arc : Arc} (h : c.value? = some arc) :
    c.next = (some arc, c.advance) := by
  simp [next, h]

theorem length_rest (c : Cursor P) : c.rest.1.length = c.remaining := by
  simp [rest, remaining]

end Cursor
end Transducer
