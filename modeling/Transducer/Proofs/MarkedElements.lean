import Mathlib.Data.List.TakeWhile
import Transducer.Proofs.Agreement
import Transducer.Proofs.CacheTransparency
/-!
# Sequences of marked elements

A sequence of elements is cut in front of every final entry. Each section that opens so is one
state: its final entry carries the final weight, the elements up to the next one are its arcs
(`Packing.sections`). The store keeps a row for each section, from which a hollow entry is left out
(`Packing.row`), and offsets that are the running sums of the rows (`exists_gather`). A sequence is
refused in three cases and no other: it has an arc in front of all final entries, what is kept of it
does not fit the offsets, or an arc leads to none of the states (`Store.exists_ofMarked_iff`). Main
statement: when a sequence is accepted, and that the machine made of it shows the sections
(`shows_sections`).
-/
namespace Transducer

namespace Packing

variable (P : Packing) (payload : P.Payload)

/-- The elements in front of the first final entry. -/
def arcsAhead (elements : List P.Element) : List P.Element :=
  elements.takeWhile fun e => !P.isFinalEntry payload 0 e

/-- The final entries, each with the elements between it and the next one. -/
def sections : List P.Element → List (P.Element × List P.Element)
  | [] => []
  | e :: rest =>
    if P.isFinalEntry payload 0 e then (e, P.arcsAhead payload rest) :: sections rest
    else sections rest

/-- What is kept of a section. -/
def row (part : P.Element × List P.Element) : List P.Element :=
  if P.isHollow payload part.1 then part.2 else part.1 :: part.2

/-- What is kept of the sections, one row for each. -/
def rows (elements : List P.Element) : List (List P.Element) :=
  (P.sections payload elements).map (P.row payload)

/-- How many elements are kept: all but the hollow ones. -/
def numKept (elements : List P.Element) : Nat :=
  elements.countP fun e => !P.isHollow payload e

/-- No arc comes before the first final entry. -/
def Opens (elements : List P.Element) : Prop :=
  ∀ e ∈ elements.head?, P.isFinalEntry payload 0 e = true

variable {P payload} {e : P.Element} {rest elements : List P.Element}

theorem isFinalEntry_of_isHollow (hollow : P.isHollow payload e = true) :
    P.isFinalEntry payload 0 e = true := by
  unfold isHollow at hollow
  exact (Bool.and_eq_true_iff.1 hollow).1

theorem isHollow_of_arc (arc : P.isFinalEntry payload 0 e = false) :
    P.isHollow payload e = false := by
  rw [isHollow, arc, Bool.false_and]

theorem arcsAhead_cons_of_arc (arc : P.isFinalEntry payload 0 e = false) :
    P.arcsAhead payload (e :: rest) = e :: P.arcsAhead payload rest := by
  simp [arcsAhead, arc]

theorem arcsAhead_cons_of_mark (mark : P.isFinalEntry payload 0 e = true) :
    P.arcsAhead payload (e :: rest) = [] := by
  simp [arcsAhead, mark]

theorem arcsAhead_of_opens (opens : P.Opens payload elements) :
    P.arcsAhead payload elements = [] := by
  cases elements with
  | nil => rfl
  | cons e rest => exact arcsAhead_cons_of_mark (opens e rfl)

theorem opens_nil : P.Opens payload [] := by
  intro e head
  cases head

theorem isFinalEntry_of_mem_arcsAhead (ahead : e ∈ P.arcsAhead payload rest) :
    P.isFinalEntry payload 0 e = false := by
  simpa using List.mem_takeWhile_imp ahead

theorem rows_cons_of_arc (arc : P.isFinalEntry payload 0 e = false) :
    P.rows payload (e :: rest) = P.rows payload rest := by
  simp [rows, sections, arc]

theorem rows_cons_of_mark (mark : P.isFinalEntry payload 0 e = true) :
    P.rows payload (e :: rest)
      = P.row payload (e, P.arcsAhead payload rest) :: P.rows payload rest := by
  simp [rows, sections, mark]

theorem length_sections (elements : List P.Element) :
    (P.sections payload elements).length = elements.countP (P.isFinalEntry payload 0) := by
  induction elements with
  | nil => rfl
  | cons e rest ih =>
    by_cases mark : P.isFinalEntry payload 0 e = true <;> simp [sections, mark, ih]

theorem length_rows (elements : List P.Element) :
    (P.rows payload elements).length = elements.countP (P.isFinalEntry payload 0) := by
  rw [rows, List.length_map, length_sections]

theorem numKept_cons_of_hollow (hollow : P.isHollow payload e = true) :
    P.numKept payload (e :: rest) = P.numKept payload rest := by
  simp [numKept, hollow]

theorem numKept_cons_of_solid (solid : P.isHollow payload e = false) :
    P.numKept payload (e :: rest) = P.numKept payload rest + 1 := by
  simp [numKept, solid]

/-- Nothing is lost between the sections. -/
theorem arcsAhead_append_sections (elements : List P.Element) :
    P.arcsAhead payload elements
      ++ (P.sections payload elements).flatMap (fun part => part.1 :: part.2) = elements := by
  induction elements with
  | nil => rfl
  | cons e rest ih =>
    by_cases mark : P.isFinalEntry payload 0 e = true
    · simp [arcsAhead_cons_of_mark mark, sections, mark, ih]
    · rw [Bool.not_eq_true] at mark
      simp [arcsAhead_cons_of_arc mark, sections, mark, ih]

/-- What is kept are the elements that are not hollow. -/
theorem arcsAhead_append_rows (elements : List P.Element) :
    P.arcsAhead payload elements ++ (P.rows payload elements).flatten
      = elements.filter fun e => !P.isHollow payload e := by
  induction elements with
  | nil => rfl
  | cons e rest ih =>
    by_cases mark : P.isFinalEntry payload 0 e = true
    · by_cases hollow : P.isHollow payload e = true
      · simp [arcsAhead_cons_of_mark mark, rows_cons_of_mark mark, row, hollow, ih]
      · simp [arcsAhead_cons_of_mark mark, rows_cons_of_mark mark, row, hollow, ih]
    · rw [Bool.not_eq_true] at mark
      simp [arcsAhead_cons_of_arc mark, rows_cons_of_arc mark, isHollow_of_arc mark, ih]

theorem flatten_rows_of_opens (opens : P.Opens payload elements) :
    (P.rows payload elements).flatten = elements.filter fun e => !P.isHollow payload e := by
  rw [← arcsAhead_append_rows, arcsAhead_of_opens opens, List.nil_append]

theorem flatMap_sections_of_opens (opens : P.Opens payload elements) :
    (P.sections payload elements).flatMap (fun part => part.1 :: part.2) = elements := by
  have whole : P.arcsAhead payload elements ++ _ = elements := arcsAhead_append_sections elements
  rwa [arcsAhead_of_opens opens, List.nil_append] at whole

/-- A section is a final entry and the arcs behind it. -/
theorem marked_of_mem_sections {part : P.Element × List P.Element}
    (member : part ∈ P.sections payload elements) :
    P.isFinalEntry payload 0 part.1 = true
      ∧ ∀ e ∈ part.2, P.isFinalEntry payload 0 e = false := by
  induction elements with
  | nil => cases member
  | cons e rest ih =>
    by_cases mark : P.isFinalEntry payload 0 e = true
    · rw [sections, if_pos mark] at member
      rcases List.mem_cons.1 member with rfl | later
      · exact ⟨mark, fun _ => isFinalEntry_of_mem_arcsAhead⟩
      · exact ih later
    · rw [sections, if_neg mark] at member
      exact ih member

end Packing

namespace Store

open Packing

variable {P : Packing} {w : OffsetWidth} {payload : P.Payload} {e : P.Element}
  {rest elements : List P.Element} {states kept : Nat}

/-! ## One element -/

section Step

variable (uniform : P.Uniform payload)
include uniform

/-- A final entry that is hollow opens a state and is left out. -/
theorem gather_cons_of_hollow (hollow : P.isHollow payload e = true) :
    gather P w payload states kept (e :: rest) = (do
      let offset ← Offset.ofNat w kept
      let after ← gather P w payload (states + 1) kept rest
      return { after with offsets := offset :: after.offsets }) := by
  have mark := beq_iff_eq.1 (isFinalEntry_of_isHollow hollow)
  have weight : (P.unpack payload 0 e Fields.inputAndWeight).weight.isZero = true := by
    unfold isHollow at hollow
    exact (Bool.and_eq_true_iff.1 hollow).2
  simp [gather, uniform.ilabel, uniform.weight, mark, weight]

/-- Another final entry opens a state and is kept. -/
theorem gather_cons_of_mark (mark : P.isFinalEntry payload 0 e = true)
    (solid : P.isHollow payload e = false) :
    gather P w payload states kept (e :: rest) = (do
      let offset ← Offset.ofNat w kept
      let after ← gather P w payload (states + 1) (kept + 1) rest
      return { after with
        offsets := offset :: after.offsets, elements := e :: after.elements }) := by
  have weight : (P.unpack payload 0 e Fields.inputAndWeight).weight.isZero = false := by
    simpa [isHollow, mark] using solid
  simp [gather, uniform.ilabel, uniform.weight, beq_iff_eq.1 mark, weight]

/-- An arc is refused in front of all states, and is kept otherwise. -/
theorem gather_cons_of_arc (arc : P.isFinalEntry payload 0 e = false) :
    gather P w payload states kept (e :: rest) =
      if states = 0 then .error (.illFormed .arcBeforeState) else do
        let after ← gather P w payload states (kept + 1) rest
        return { after with elements := e :: after.elements, numArcs := after.numArcs + 1 } := by
  have label := beq_eq_false_iff_ne.1 arc
  simp only [gather, uniform.ilabel, label, if_false]
  rfl

end Step

/-- What is gathered of a sequence behind some kept elements: those that are not hollow, and offsets
that cut them into the rows of the sections. The arcs ahead of the first section go on with the row
that was open before. -/
structure Gathered.Parts (payload : P.Payload) (gathered : Gathered P w) (kept : Nat)
    (sequence : List P.Element) : Prop where
  elements : gathered.elements = sequence.filter fun e => !P.isHollow payload e
  offsets : gathered.offsets.map (·.val)
    = runningSums (kept + (P.arcsAhead payload sequence).length)
      ((P.rows payload sequence).map List.length)
  numArcs : gathered.numArcs = sequence.countP fun e => !P.isFinalEntry payload 0 e

section Steps

variable {after : Gathered P w} {offset : Offset w}

theorem Gathered.parts_nil (fits : offset.val = kept) :
    Gathered.Parts payload ⟨[offset], [], 0⟩ kept [] := by
  refine ⟨rfl, ?_, rfl⟩
  simp [arcsAhead, rows, sections, runningSums, fits]

theorem Gathered.Parts.leaveOut (later : after.Parts payload kept rest) (fits : offset.val = kept)
    (hollow : P.isHollow payload e = true) :
    Gathered.Parts payload { after with offsets := offset :: after.offsets } kept (e :: rest) := by
  have mark := isFinalEntry_of_isHollow hollow
  refine ⟨by simp [hollow, later.elements], ?_, by simp [mark, later.numArcs]⟩
  rw [arcsAhead_cons_of_mark mark, rows_cons_of_mark mark, row, if_pos hollow, List.map_cons,
    List.map_cons, later.offsets, fits]
  rfl

theorem Gathered.Parts.start (later : after.Parts payload (kept + 1) rest)
    (fits : offset.val = kept) (mark : P.isFinalEntry payload 0 e = true)
    (solid : P.isHollow payload e = false) :
    Gathered.Parts payload
      { after with offsets := offset :: after.offsets, elements := e :: after.elements }
      kept (e :: rest) := by
  refine ⟨by simp [solid, later.elements], ?_, by simp [mark, later.numArcs]⟩
  rw [arcsAhead_cons_of_mark mark, rows_cons_of_mark mark, row, if_neg (by simp [solid]),
    List.map_cons, List.map_cons, later.offsets, fits, List.length_nil, Nat.add_zero, runningSums,
    Nat.add_assoc, Nat.add_comm 1]
  rfl

theorem Gathered.Parts.goOn (later : after.Parts payload (kept + 1) rest)
    (arc : P.isFinalEntry payload 0 e = false) :
    Gathered.Parts payload
      { after with elements := e :: after.elements, numArcs := after.numArcs + 1 }
      kept (e :: rest) := by
  refine ⟨by simp [isHollow_of_arc arc, later.elements], ?_, by simp [arc, later.numArcs]⟩
  rw [arcsAhead_cons_of_arc arc, rows_cons_of_arc arc, later.offsets, List.length_cons,
    Nat.add_assoc, Nat.add_comm 1]

end Steps

/-! ## Whole sequences -/

section Run

variable (uniform : P.Uniform payload)
include uniform

/-- A sequence that is gathered has no arc in front of all states, and fits. -/
theorem parts_of_gather {gathered : Gathered P w}
    (made : gather P w payload states kept elements = .ok gathered) :
    (states = 0 → P.Opens payload elements)
      ∧ kept + P.numKept payload elements < 256 ^ w.bytes
      ∧ gathered.Parts payload kept elements := by
  induction elements generalizing states kept gathered with
  | nil =>
    unfold gather at made
    obtain ⟨offset, fits, built⟩ := bind_eq_ok_iff.1 made
    cases built
    rw [Offset.ofNat_eq_ok_iff] at fits
    exact ⟨fun _ => opens_nil, fits ▸ offset.isLt, Gathered.parts_nil fits⟩
  | cons e rest ih =>
    by_cases mark : P.isFinalEntry payload 0 e = true
    · have opens : P.Opens payload (e :: rest) := by
        simpa [Opens] using mark
      by_cases hollow : P.isHollow payload e = true
      · rw [gather_cons_of_hollow uniform hollow] at made
        obtain ⟨offset, fits, made⟩ := bind_eq_ok_iff.1 made
        obtain ⟨after, later, built⟩ := bind_eq_ok_iff.1 made
        cases built
        obtain ⟨_, below, parts⟩ := ih later
        rw [numKept_cons_of_hollow hollow]
        exact ⟨fun _ => opens, below, parts.leaveOut (Offset.ofNat_eq_ok_iff.1 fits) hollow⟩
      · rw [Bool.not_eq_true] at hollow
        rw [gather_cons_of_mark uniform mark hollow] at made
        obtain ⟨offset, fits, made⟩ := bind_eq_ok_iff.1 made
        obtain ⟨after, later, built⟩ := bind_eq_ok_iff.1 made
        cases built
        obtain ⟨_, below, parts⟩ := ih later
        rw [numKept_cons_of_solid hollow]
        exact ⟨fun _ => opens, by omega,
          parts.start (Offset.ofNat_eq_ok_iff.1 fits) mark hollow⟩
    · rw [Bool.not_eq_true] at mark
      rw [gather_cons_of_arc uniform mark] at made
      split at made
      · cases made
      · rename_i opened
        obtain ⟨after, later, built⟩ := bind_eq_ok_iff.1 made
        cases built
        obtain ⟨_, below, parts⟩ := ih later
        rw [numKept_cons_of_solid (isHollow_of_arc mark)]
        exact ⟨fun none_ => absurd none_ opened, by omega, parts.goOn mark⟩

/-- Nothing else is refused while gathering. -/
theorem exists_gather (opens : states = 0 → P.Opens payload elements)
    (fits : kept + P.numKept payload elements < 256 ^ w.bytes) :
    ∃ gathered, gather P w payload states kept elements = .ok gathered := by
  have here : kept < 256 ^ w.bytes := Nat.lt_of_le_of_lt (Nat.le_add_right _ _) fits
  induction elements generalizing states kept with
  | nil =>
    refine ⟨⟨[⟨kept, here⟩], [], 0⟩, ?_⟩
    rw [gather, Offset.ofNat_of_lt here]
    rfl
  | cons e rest ih =>
    by_cases mark : P.isFinalEntry payload 0 e = true
    · have opened : states + 1 = 0 → P.Opens payload rest :=
        fun none_ => absurd none_ (Nat.succ_ne_zero _)
      by_cases hollow : P.isHollow payload e = true
      · rw [numKept_cons_of_hollow hollow] at fits
        obtain ⟨after, later⟩ := ih opened fits here
        rw [gather_cons_of_hollow uniform hollow, Offset.ofNat_of_lt here, later]
        exact ⟨_, rfl⟩
      · rw [Bool.not_eq_true] at hollow
        rw [numKept_cons_of_solid hollow] at fits
        have below : kept + 1 + P.numKept payload rest < 256 ^ w.bytes := by omega
        obtain ⟨after, later⟩ := ih opened below (by omega)
        rw [gather_cons_of_mark uniform mark hollow, Offset.ofNat_of_lt here, later]
        exact ⟨_, rfl⟩
    · rw [Bool.not_eq_true] at mark
      rw [numKept_cons_of_solid (isHollow_of_arc mark)] at fits
      have opened : states ≠ 0 := fun none_ => by
        rw [opens none_ e rfl] at mark
        cases mark
      have below : kept + 1 + P.numKept payload rest < 256 ^ w.bytes := by omega
      obtain ⟨after, later⟩ := ih (fun none_ => absurd none_ opened) below (by omega)
      rw [gather_cons_of_arc uniform mark, if_neg opened, later]
      exact ⟨_, rfl⟩

end Run

/-! ## The store of a sequence -/

/-- The store of what was gathered. -/
def Gathered.store (gathered : Gathered P w) : Store P w where
  addressing := .indexed (Region.owned gathered.offsets)
  elements := Region.owned gathered.elements
  start := firstState (gathered.offsets.length - 1)
  numStates := gathered.offsets.length - 1
  numArcs := gathered.numArcs

/-- The arcs of all states lead to states. -/
def checkTargets (payload : P.Payload) (store : Store P w) : Except Error Unit :=
  (List.range store.numStates).forM fun i =>
    (store.windowAt i).forM (checkTarget P payload store.numStates i)

theorem ofMarked_eq_ok_iff {store : Store P w} :
    ofMarked P w payload elements = .ok store
      ↔ ∃ gathered, gather P w payload 0 0 elements = .ok gathered
        ∧ checkTargets payload gathered.store = .ok () ∧ store = gathered.store := by
  unfold ofMarked
  rw [bind_eq_ok_iff]
  refine exists_congr fun gathered => and_congr_right fun _ => ?_
  rw [bind_eq_ok_iff]
  constructor
  · rintro ⟨_, checked, built⟩
    exact ⟨checked, (Except.ok.inj built).symm⟩
  · rintro ⟨checked, rfl⟩
    exact ⟨(), checked, rfl⟩

theorem Gathered.Parts.holds {gathered : Gathered P w} (parts : gathered.Parts payload 0 elements)
    (indexed : P.arity = .indexed) (opens : P.Opens payload elements) :
    gathered.store.Holds (P.rows payload elements) := by
  have ahead := arcsAhead_of_opens opens
  have offsets := parts.offsets
  rw [ahead] at offsets
  refine ⟨?_, ?_, indexed.symm, offsets⟩
  · exact parts.elements.trans (flatten_rows_of_opens opens).symm
  · have lengths := congrArg List.length offsets
    rw [List.length_map, length_runningSums, List.length_map] at lengths
    change gathered.offsets.length - 1 = _
    omega

/-- Where the element of an arc leads is one of so many states. -/
def LeadsInside (payload : P.Payload) (numStates : Nat) (e : P.Element) : Prop :=
  0 ≤ (P.unpack payload 0 e Fields.all).nextstate.toInt
    ∧ (P.unpack payload 0 e Fields.all).nextstate.toInt < numStates

section Targets

variable (uniform : P.Uniform payload)
  (aims : ∀ s e fields, (P.unpack payload s e fields).nextstate
    = (P.unpack payload 0 e Fields.all).nextstate)
include uniform aims

theorem checkTarget_eq_ok_iff {numStates i : Nat} :
    checkTarget P payload numStates i e = .ok ()
      ↔ (P.isFinalEntry payload 0 e = false → LeadsInside payload numStates e) := by
  have label : (P.unpack payload (stateAt i) e Fields.inputAndTarget).ilabel = noLabel
      ↔ P.isFinalEntry payload 0 e = true := by
    rw [uniform.ilabel]
    exact beq_iff_eq.symm
  have inside : (position? (P.unpack payload (stateAt i) e Fields.inputAndTarget).nextstate).any
      (· < numStates) = true ↔ LeadsInside payload numStates e := by
    rw [aims, Option.any_eq_true]
    constructor
    · rintro ⟨j, position, below⟩
      rw [position?_eq_some_iff] at position
      rw [decide_eq_true_eq] at below
      exact ⟨by omega, by omega⟩
    · rintro ⟨nonneg, below⟩
      refine ⟨_, View.position?_of_nonneg nonneg, decide_eq_true ?_⟩
      omega
  unfold checkTarget
  simp only
  split
  · rename_i passes
    rw [label, inside] at passes
    refine iff_of_true rfl fun arc => passes.resolve_left ?_
    rw [arc]
    exact Bool.false_ne_true
  · rename_i refused
    rw [label, inside, not_or, Bool.not_eq_true] at refused
    refine iff_of_false (fun passed => ?_) fun leads => refused.2 (leads refused.1)
    cases passed

/-- Checking the arcs of all states is checking all elements. -/
theorem checkTargets_eq_ok_iff {store : Store P w} {rows : List (List P.Element)}
    (holds : store.Holds rows) :
    checkTargets payload store = .ok ()
      ↔ ∀ e ∈ rows.flatten, P.isFinalEntry payload 0 e = false →
        LeadsInside payload store.numStates e := by
  unfold checkTargets
  simp only [forM_eq_ok_iff, checkTarget_eq_ok_iff uniform aims]
  rw [← holds.map_windowAt]
  simp only [List.mem_flatten, List.mem_map]
  constructor
  · rintro checked e ⟨_, ⟨i, state, rfl⟩, member⟩
    exact checked i state e member
  · intro checked i state e member
    exact checked e ⟨_, ⟨i, state, rfl⟩, member⟩

/-- The elements left out are no arcs. -/
theorem checkTargets_gathered_iff {gathered : Gathered P w}
    (parts : gathered.Parts payload 0 elements) (indexed : P.arity = .indexed)
    (opens : P.Opens payload elements) :
    checkTargets payload gathered.store = .ok ()
      ↔ ∀ e ∈ elements, P.isFinalEntry payload 0 e = false →
        LeadsInside payload (elements.countP (P.isFinalEntry payload 0)) e := by
  have holds := parts.holds indexed opens
  rw [checkTargets_eq_ok_iff uniform aims holds, holds.numStates, length_rows,
    flatten_rows_of_opens opens]
  constructor
  · intro checked e member arc
    refine checked e (List.mem_filter.2 ⟨member, ?_⟩) arc
    rw [isHollow_of_arc arc]
    rfl
  · intro leads e kept
    exact leads e (List.mem_of_mem_filter kept)

/-- A sequence makes a store exactly if nothing comes before the first final entry, all arcs lead to
states, and what is kept fits. -/
theorem exists_ofMarked_iff (indexed : P.arity = .indexed) :
    (∃ store, ofMarked P w payload elements = .ok store)
      ↔ P.Opens payload elements
        ∧ (∀ e ∈ elements, P.isFinalEntry payload 0 e = false →
          LeadsInside payload (elements.countP (P.isFinalEntry payload 0)) e)
        ∧ P.numKept payload elements < 256 ^ w.bytes := by
  constructor
  · rintro ⟨store, made⟩
    obtain ⟨gathered, whole, checked, rfl⟩ := ofMarked_eq_ok_iff.1 made
    obtain ⟨opens, fits, parts⟩ := parts_of_gather uniform whole
    rw [Nat.zero_add] at fits
    exact ⟨opens rfl, (checkTargets_gathered_iff uniform aims parts indexed (opens rfl)).1 checked,
      fits⟩
  · rintro ⟨opens, leads, fits⟩
    rw [← Nat.zero_add (P.numKept payload elements)] at fits
    obtain ⟨gathered, made⟩ := exists_gather uniform (fun _ : 0 = 0 => opens) fits
    obtain ⟨_, _, parts⟩ := parts_of_gather uniform made
    have checked := (checkTargets_gathered_iff uniform aims parts indexed opens).2 leads
    exact ⟨gathered.store, ofMarked_eq_ok_iff.2 ⟨gathered, made, checked, rfl⟩⟩

end Targets

/-- The store of a sequence holds its rows, starts at the first of them, and counts the arcs. -/
theorem rows_of_ofMarked (uniform : P.Uniform payload) (indexed : P.arity = .indexed)
    {store : Store P w} (made : ofMarked P w payload elements = .ok store) :
    P.Opens payload elements ∧ store.Holds (P.rows payload elements)
      ∧ store.start = firstState store.numStates
      ∧ store.numArcs = elements.countP fun e => !P.isFinalEntry payload 0 e := by
  obtain ⟨gathered, whole, _, rfl⟩ := ofMarked_eq_ok_iff.1 made
  obtain ⟨opens, _, parts⟩ := parts_of_gather uniform whole
  exact ⟨opens rfl, parts.holds indexed (opens rfl), rfl, parts.numArcs⟩

end Store

/-- The target of an element is kept with it, where states own any number of elements. -/
theorem Stock.nextstate_unpack_of_indexed {k : Stock} (indexed : k.packing.arity = .indexed)
    (payload : k.packing.Payload) (s : StateId) (e : k.packing.Element) (fields : Fields) :
    (k.packing.unpack payload s e fields).nextstate
      = (k.packing.unpack payload 0 e Fields.all).nextstate := by
  cases k with
  | string | weightedString => cases indexed
  | unweightedAcceptor | acceptor | unweighted => rfl

namespace Compact

variable {F : Format} {c : Compact F} {s : StateId}
  {part : F.packing.Element × List F.packing.Element}

/-- A state whose entries are the row of a section shows that section. A final entry that was left
out weighs `zero`, as a state without one does. -/
theorem shows_of_window (uniform : F.packing.Uniform c.payload)
    (weights : ∀ e, (F.packing.unpack c.payload s e Fields.all).weight
      = (F.packing.unpack c.payload s e Fields.inputAndWeight).weight)
    (window : c.window s = F.packing.row c.payload part)
    (mark : F.packing.isFinalEntry c.payload 0 part.1 = true)
    (arcs : ∀ e ∈ part.2, F.packing.isFinalEntry c.payload 0 e = false) :
    c.final s = (F.packing.unpack c.payload s part.1 Fields.all).weight
      ∧ c.arcs s = part.2.map fun e => F.packing.unpack c.payload s e Fields.all := by
  obtain ⟨front, behind⟩ := part
  change ∀ e ∈ behind, _ at arcs
  have label : F.packing.inputLabel c.payload 0 front = noLabel := beq_iff_eq.1 mark
  rw [arcs_eq, Packing.arcEntries, startsFinal_eq uniform]
  unfold final
  rw [window, Packing.row]
  by_cases hollow : F.packing.isHollow c.payload front = true
  · have weight : (F.packing.unpack c.payload s front Fields.all).weight = Weight.zero := by
      rw [weights, uniform.weight]
      exact Weight.eq_zero_of_isZero (Bool.and_eq_true_iff.1 hollow).2
    rw [weight, if_pos hollow]
    cases behind with
    | nil => exact ⟨rfl, rfl⟩
    | cons e rest =>
      have arc := arcs e List.mem_cons_self
      have other : F.packing.inputLabel c.payload 0 e ≠ noLabel := beq_eq_false_iff_ne.1 arc
      simp [uniform.ilabel, other, arc]
  · rw [if_neg hollow]
    simp [uniform.ilabel, label, mark, weights]

/-- The machine has one state for each section of a sequence and shows there what it holds. -/
structure ShowsSections (c : Compact F) (elements : List F.packing.Element) : Prop where
  numStates : c.view.numStates = elements.countP (F.packing.isFinalEntry c.payload 0)
  start : c.view.start = if c.view.numStates = 0 then noState else 0
  numArcs : c.store.numArcs = elements.countP fun e => !F.packing.isFinalEntry c.payload 0 e
  cut : (F.packing.sections c.payload elements).flatMap (fun part => part.1 :: part.2) = elements
  marked : ∀ part ∈ F.packing.sections c.payload elements,
    F.packing.isFinalEntry c.payload 0 part.1 = true
      ∧ ∀ e ∈ part.2, F.packing.isFinalEntry c.payload 0 e = false
  length : (F.packing.sections c.payload elements).length = c.view.numStates
  states : ∀ s i part, position? s = some i →
    (F.packing.sections c.payload elements)[i]? = some part →
      c.view.final s = (F.packing.unpack c.payload s part.1 Fields.all).weight
        ∧ c.view.arcs s = part.2.map fun e => F.packing.unpack c.payload s e Fields.all

theorem showsSections_of_ofMarked {elements : List F.packing.Element}
    (uniform : F.packing.Uniform c.payload)
    (weights : ∀ s e, (F.packing.unpack c.payload s e Fields.all).weight
      = (F.packing.unpack c.payload s e Fields.inputAndWeight).weight)
    (indexed : F.packing.arity = .indexed)
    (made : Store.ofMarked F.packing F.width c.payload elements = .ok c.store) :
    c.ShowsSections elements := by
  obtain ⟨opens, holds, start, numArcs⟩ := Store.rows_of_ofMarked uniform indexed made
  have numStates := holds.numStates
  rw [Packing.length_rows] at numStates
  refine ⟨numStates, start, numArcs, Packing.flatMap_sections_of_opens opens,
    fun _ => Packing.marked_of_mem_sections, ?_, fun s i part position there => ?_⟩
  · rw [Packing.length_sections]
    exact numStates.symm
  · obtain ⟨below, here⟩ := List.getElem?_eq_some_iff.1 there
    have inside : i < (F.packing.rows c.payload elements).length := by
      rwa [Packing.rows, List.length_map]
    have window : c.window s = F.packing.row c.payload part := by
      unfold window
      rw [Store.window_of_position position (by rw [holds.numStates]; exact inside),
        holds.windowAt inside, ← here]
      exact List.getElem_map _
    obtain ⟨mark, arcs⟩ := Packing.marked_of_mem_sections (List.mem_of_getElem? there)
    exact shows_of_window uniform (weights s) window mark arcs

end Compact

/-- A sequence of elements is accepted exactly if it is empty or begins with a final entry, the
other elements lead to states, of which there are as many as final entries, and the number of
elements that are not hollow fits the offsets. The machine that is made of it shows its sections. -/
theorem shows_sections (k : Stock) (indexed : k.packing.arity = .indexed) (algebra : Algebra)
    (width : OffsetWidth) (payload : k.packing.Payload) (elements : List k.packing.Element) :
    ((∃ c : Compact (k.format algebra width), Compact.ofElements? payload elements = .ok c)
      ↔ k.packing.Opens payload elements
        ∧ (∀ e ∈ elements, k.packing.isFinalEntry payload 0 e = false →
          Store.LeadsInside payload (elements.countP (k.packing.isFinalEntry payload 0)) e)
        ∧ k.packing.numKept payload elements < 256 ^ width.bytes)
      ∧ ∀ c : Compact (k.format algebra width), Compact.ofElements? payload elements = .ok c →
        c.ShowsSections elements := by
  have ofMarked : Store.ofElements k.packing width payload elements
      = Store.ofMarked k.packing width payload elements := by
    unfold Store.ofElements
    rw [indexed]
  constructor
  · rw [← Store.exists_ofMarked_iff (k.uniform payload)
      (Stock.nextstate_unpack_of_indexed indexed payload) indexed, ← ofMarked]
    constructor
    · rintro ⟨c, made⟩
      exact ⟨c.store, (Compact.frame_of_ofElements made).1⟩
    · rintro ⟨store, made⟩
      exact ⟨_, bind_eq_ok_iff.2 ⟨store, made, rfl⟩⟩
  · intro c made
    obtain ⟨stored, same, _⟩ := Compact.frame_of_ofElements made
    cases same
    exact Compact.showsSections_of_ofMarked (k.uniform c.payload)
      (k.weight_unpack_all c.payload) indexed (ofMarked.symm.trans stored)

/-- The hollow entry of `markedPair` is left out of the store, but not its state. -/
theorem shows_sections_markedPair :
    gatheredPair.view.numStates = 2 ∧ gatheredPair.store.numArcs = 1
      ∧ gatheredPair.view.final 0 = Weight.zero
      ∧ gatheredPair.view.arcs 0 = [⟨1, 1, Weight.one, 1⟩]
      ∧ ¬ ∃ c : Compact (Stock.acceptor.format .tropical .one),
        Compact.ofElements? () (markedPair.take 2) = .ok c := by
  have made : Compact.ofElements? () markedPair = .ok gatheredPair := by
    rfl
  have shown := (shows_sections .acceptor rfl .tropical .one () markedPair).2 gatheredPair made
  obtain ⟨final, arcs⟩ := shown.states 0 0 (⟨noLabel, Weight.zero, noState⟩, [⟨1, Weight.one, 1⟩])
    rfl rfl
  refine ⟨shown.numStates, shown.numArcs, final, arcs, ?_⟩
  rw [(shows_sections .acceptor rfl .tropical .one () (markedPair.take 2)).1]
  rintro ⟨_, leads, _⟩
  exact absurd (leads ⟨1, Weight.one, 1⟩ (List.mem_cons_of_mem _ List.mem_cons_self) rfl).2
    (by decide)

end Transducer
