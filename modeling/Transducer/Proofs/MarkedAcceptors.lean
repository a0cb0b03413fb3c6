import Transducer.Proofs.MarkedElements
import Transducer.Proofs.StoredStart
/-!
# Acceptors as sequences of marked elements

The entries of an acceptor can be packed state by state, or listed as one sequence in which each
state is opened by its final weight, also where that is `zero` (`View.marked`). The packing leaves
out the final entries of states that are not final, and so does the gathering of the sequence, which
sees them only as hollow elements: the rows are the same (`rows_marked`). Rows settle the store, so
that the two ways differ in nothing but the start, which a sequence does not name. Main statement:
either both ways succeed or neither, and a machine that starts at its first state gives the same
store both ways (`gathers_as_packed`).
-/
namespace Transducer

namespace Packing

/-- The packed entries of a state behind its final weight, whatever that is. -/
def markedState (P : Packing) (payload : P.Payload) (v : View) (s : StateId) : List P.Element :=
  (Arc.superfinal (v.final s) :: v.arcs s).map (P.pack payload s)

end Packing

/-- The states of a view in order, as one sequence of elements. -/
def View.marked (P : Packing) (payload : P.Payload) (v : View) : List P.Element :=
  v.states.flatMap (P.markedState payload v)

/-- Every arc has equal labels, which are not the reserved one, and leads to a state. -/
structure Machine.PlainAcceptor (m : Machine) : Prop where
  equal : ∀ state ∈ m.states, ∀ a ∈ state.arcs, a.olabel = a.ilabel
  plain : ∀ state ∈ m.states, ∀ a ∈ state.arcs, a.ilabel ≠ noLabel
  inside : ∀ state ∈ m.states, ∀ a ∈ state.arcs, m.view.InRange a.nextstate

namespace Packing

variable {P : Packing} {payload : P.Payload} {arcs rest : List P.Element}

theorem arcsAhead_append_of_arcs (arc : ∀ e ∈ arcs, P.isFinalEntry payload 0 e = false) :
    P.arcsAhead payload (arcs ++ rest) = arcs ++ P.arcsAhead payload rest :=
  List.takeWhile_append_of_pos (by simpa using arc)

theorem rows_append_of_arcs (arc : ∀ e ∈ arcs, P.isFinalEntry payload 0 e = false) :
    P.rows payload (arcs ++ rest) = P.rows payload rest := by
  induction arcs with
  | nil => rfl
  | cons e arcs ih =>
    rw [List.forall_mem_cons] at arc
    rw [List.cons_append, rows_cons_of_arc arc.1, ih arc.2]

end Packing

/-! ## The rows of the sequence -/

section Rows

variable {k : Stock} {payload : k.packing.Payload} {v : View}

theorem Stock.nextstate_unpack_pack {k : Stock} (kept : k.keepsTarget = true)
    (payload : k.packing.Payload) (reader s : StateId) (fields : Fields) (arc : Arc) :
    (k.packing.unpack payload reader (k.packing.pack payload s arc) fields).nextstate
      = arc.nextstate := by
  cases k with
  | string | weightedString => cases kept
  | unweightedAcceptor | acceptor | unweighted => rfl

/-- The elements behind the final weight of a state are arcs. -/
theorem isFinalEntry_of_mem_map_pack {s : StateId} (plain : ∀ a ∈ v.arcs s, a.ilabel ≠ noLabel)
    {e : k.packing.Element} (member : e ∈ (v.arcs s).map (k.packing.pack payload s)) :
    k.packing.isFinalEntry payload 0 e = false := by
  obtain ⟨a, arc, rfl⟩ := List.mem_map.1 member
  rw [Stock.isFinalEntry_pack]
  exact beq_eq_false_iff_ne.2 (plain a arc)

theorem opens_flatMap_markedState (states : List StateId) :
    k.packing.Opens payload (states.flatMap (k.packing.markedState payload v)) := by
  cases states with
  | nil => exact Packing.opens_nil
  | cons s states =>
    intro e head
    cases head
    exact Stock.isFinalEntry_pack k payload 0 s _

theorem opens_marked : k.packing.Opens payload (v.marked k.packing payload) :=
  opens_flatMap_markedState v.states

variable (weighs : k.keepsWeights = true)
include weighs

/-- What is kept of the section of a state are its packed entries. -/
theorem row_markedState (s : StateId) :
    k.packing.row payload (k.packing.pack payload s (Arc.superfinal (v.final s)),
      (v.arcs s).map (k.packing.pack payload s)) = k.packing.packState payload v s := by
  have hollow : k.packing.isHollow payload
      (k.packing.pack payload s (Arc.superfinal (v.final s))) = !v.isFinal s := by
    simp [Stock.isHollow_pack, weighs, Arc.superfinal, View.isFinal]
  unfold Packing.row Packing.packState View.entries
  rw [hollow]
  cases v.isFinal s <;> simp

/-- Each state opens a section of its own, at whose end the next one opens. -/
theorem rows_flatMap_markedState {states : List StateId}
    (plain : ∀ s ∈ states, ∀ a ∈ v.arcs s, a.ilabel ≠ noLabel) :
    k.packing.rows payload (states.flatMap (k.packing.markedState payload v))
      = states.map (k.packing.packState payload v) := by
  induction states with
  | nil => rfl
  | cons s states ih =>
    rw [List.forall_mem_cons] at plain
    have arcs : ∀ e ∈ (v.arcs s).map (k.packing.pack payload s),
        k.packing.isFinalEntry payload 0 e = false :=
      fun _ => isFinalEntry_of_mem_map_pack plain.1
    have mark : k.packing.isFinalEntry payload 0
        (k.packing.pack payload s (Arc.superfinal (v.final s))) = true :=
      Stock.isFinalEntry_pack k payload 0 s _
    rw [List.flatMap_cons, Packing.markedState, List.map_cons, List.cons_append,
      Packing.rows_cons_of_mark mark, Packing.arcsAhead_append_of_arcs arcs,
      Packing.arcsAhead_of_opens (opens_flatMap_markedState states), List.append_nil,
      row_markedState weighs, Packing.rows_append_of_arcs arcs, ih plain.2, List.map_cons]

variable (plain : ∀ s ∈ v.states, ∀ a ∈ v.arcs s, a.ilabel ≠ noLabel)
include plain

/-- The rows of the sequence are those that the view itself is packed in. -/
theorem rows_marked :
    k.packing.rows payload (v.marked k.packing payload) = Store.rowsOf k.packing payload v :=
  rows_flatMap_markedState weighs plain

theorem countP_marked :
    (v.marked k.packing payload).countP (k.packing.isFinalEntry payload 0) = v.numStates := by
  rw [← Packing.length_rows, rows_marked weighs plain, Store.rowsOf, List.length_map,
    View.length_states]

/-- What is kept of the sequence are the entries of the view. -/
theorem numKept_marked :
    k.packing.numKept payload (v.marked k.packing payload) = v.entryCounts.sum := by
  unfold Packing.numKept
  rw [List.countP_eq_length_filter, ← Packing.flatten_rows_of_opens opens_marked,
    rows_marked weighs plain, List.length_flatten, Store.map_length_rowsOf]

end Rows

/-! ## The store of the sequence -/

namespace Store

variable {k : Stock} {payload : k.packing.Payload} {v : View} {width : OffsetWidth}

theorem leadsInside_of_mem_marked (kept : k.keepsTarget = true)
    (inside : ∀ s ∈ v.states, ∀ a ∈ v.arcs s, v.InRange a.nextstate)
    {e : k.packing.Element} (member : e ∈ v.marked k.packing payload)
    (arc : k.packing.isFinalEntry payload 0 e = false) : LeadsInside payload v.numStates e := by
  obtain ⟨s, state, entry⟩ := List.mem_flatMap.1 member
  obtain ⟨a, listed, rfl⟩ := List.mem_map.1 entry
  rcases List.mem_cons.1 listed with rfl | shown
  · rw [Stock.isFinalEntry_pack] at arc
    cases arc
  · unfold LeadsInside
    rw [Stock.nextstate_unpack_pack kept]
    exact inside s state a shown

/-- The sequence makes a store exactly if the entries of the view fit. -/
theorem exists_ofMarked_marked_iff (weighs : k.keepsWeights = true)
    (indexed : k.packing.arity = .indexed) (kept : k.keepsTarget = true)
    (plain : ∀ s ∈ v.states, ∀ a ∈ v.arcs s, a.ilabel ≠ noLabel)
    (inside : ∀ s ∈ v.states, ∀ a ∈ v.arcs s, v.InRange a.nextstate) :
    (∃ store, ofMarked k.packing width payload (v.marked k.packing payload) = .ok store)
      ↔ v.Fits k.packing width := by
  rw [exists_ofMarked_iff (k.uniform payload) (Stock.nextstate_unpack_of_indexed indexed payload)
    indexed, countP_marked weighs plain, numKept_marked weighs plain,
    View.fits_iff_of_indexed indexed]
  constructor
  · exact fun accepted => accepted.2.2
  · intro fits
    exact ⟨opens_marked, fun e member arc => leadsInside_of_mem_marked kept inside member arc, fits⟩

/-- Both ways to build the store make the same rows, and the rows settle the store. -/
theorem eq_of_ofMarked_marked (weighs : k.keepsWeights = true)
    (indexed : k.packing.arity = .indexed)
    (plain : ∀ s ∈ v.states, ∀ a ∈ v.arcs s, a.ilabel ≠ noLabel)
    {gathered packed : Store k.packing width}
    (made : ofElements k.packing width payload (v.marked k.packing payload) = .ok gathered)
    (made_packed : ofView k.packing width payload v = .ok packed) :
    gathered = { packed with start := firstState v.numStates } := by
  have marked : ofMarked k.packing width payload (v.marked k.packing payload) = .ok gathered := by
    unfold ofElements at made
    rwa [indexed] at made
  obtain ⟨_, holds, start, _⟩ := rows_of_ofMarked (k.uniform payload) indexed marked
  rw [rows_marked weighs plain] at holds
  have numStates : gathered.numStates = v.numStates := by
    rw [holds.numStates, rowsOf, List.length_map, View.length_states]
  rw [numStates] at start
  rw [← start]
  exact BuiltPlain.eq_of_holds (.gathered made) (.packed made_packed plain) holds
    (holds_of_ofView made_packed).1

end Store

/-! ## Acceptors -/

namespace Machine.PlainAcceptor

variable {m : Machine}

/-- The packing of acceptors demands nothing else. -/
theorem checkSource (plain : m.PlainAcceptor) :
    Compact.checkSource Stock.acceptor.packing m.view = .ok () := by
  refine (Compact.checkSource_view_iff (k := .acceptor)).2 fun t verdict said => ?_
  rcases Stock.says_required said with ⟨_, rfl, rfl⟩ | ⟨dropped, _⟩ | ⟨dropped, _⟩
  · refine List.all_eq_true.2 fun state member => List.all_eq_true.2 fun a arc => ?_
    exact beq_iff_eq.2 (plain.equal state member a arc).symm
  · cases dropped
  · cases dropped

end Machine.PlainAcceptor

/-- An acceptor without the reserved label, all of whose arcs lead to states, is packed exactly if
the sequence is accepted that lists, for each state in order, its final weight and its arcs. The
stores are the same then, offsets, elements and counts, but that the sequence always starts at the
first state, or nowhere if there is none; they are the same altogether exactly if the machine starts
there. -/
theorem gathers_as_packed (algebra : Algebra) (width : OffsetWidth) (m : Machine)
    (plain : m.PlainAcceptor) :
    ((∃ c : Compact (Stock.acceptor.format algebra width),
        Compact.ofElements? () (m.view.marked Stock.acceptor.packing ()) = .ok c)
      ↔ ∃ d : Compact (Stock.acceptor.format algebra width), Compact.ofView? () m.view = .ok d)
      ∧ ∀ c d : Compact (Stock.acceptor.format algebra width),
        Compact.ofElements? () (m.view.marked Stock.acceptor.packing ()) = .ok c →
          Compact.ofView? () m.view = .ok d →
            c.store = { d.store with start := Store.firstState m.numStates }
              ∧ (c.store = d.store ↔ m.start = Store.firstState m.numStates) := by
  have labels : ∀ s ∈ m.view.states, ∀ a ∈ m.view.arcs s, a.ilabel ≠ noLabel :=
    fun s _ => Machine.forall_arcs_view plain.plain s
  have inside : ∀ s ∈ m.view.states, ∀ a ∈ m.view.arcs s, m.view.InRange a.nextstate :=
    fun s _ => Machine.forall_arcs_view plain.inside s
  have fits : (∃ store, Store.ofElements Stock.acceptor.packing width ()
      (m.view.marked Stock.acceptor.packing ()) = .ok store)
        ↔ m.view.Fits Stock.acceptor.packing width :=
    Store.exists_ofMarked_marked_iff (k := .acceptor) rfl rfl rfl labels inside
  constructor
  · constructor
    · rintro ⟨c, made⟩
      exact Compact.ofView?_of_fits (F := Stock.acceptor.format algebra width) () plain.checkSource
        (fits.1 ⟨_, (Compact.frame_of_ofElements made).1⟩)
    · rintro ⟨d, made⟩
      obtain ⟨store, stored⟩ := fits.2 (Compact.fits_of_ofView? made)
      exact ⟨_, bind_eq_ok_iff.2 ⟨store, stored, rfl⟩⟩
  · intro c d made made_packed
    obtain ⟨_, store, packed, rfl⟩ := Compact.ofView?_eq_ok_iff.1 made_packed
    have same : c.store = { store with start := Store.firstState m.numStates } :=
      Store.eq_of_ofMarked_marked (k := .acceptor) rfl rfl labels
        (Compact.frame_of_ofElements made).1 packed
    have start : store.start = m.start := (Store.holds_of_ofView packed).2.1
    refine ⟨same, ?_⟩
    rw [same, ← start]
    constructor
    · intro equal
      exact (congrArg Store.start equal).symm
    · intro first
      rw [← first]
      rfl

/-- A final state whose weight is no number, a state with neither an arc nor a final weight, and one
that has arcs only, of weight `zero` and of no number. -/
def unevenAcceptor : Machine :=
  ⟨0, [⟨Weight.bad, [⟨1, 1, Weight.one, 2⟩]⟩, ⟨Weight.zero, []⟩,
    ⟨Weight.zero, [⟨2, 2, Weight.zero, 0⟩, ⟨3, 3, Weight.bad, 1⟩]⟩], SymbolPair.none⟩

theorem gathers_as_packed_uneven :
    unevenAcceptor.PlainAcceptor ∧ ∃ c d : Compact (Stock.acceptor.format .tropical .one),
      Compact.ofElements? () (unevenAcceptor.view.marked Stock.acceptor.packing ()) = .ok c
        ∧ Compact.ofView? () unevenAcceptor.view = .ok d
        ∧ d.store.addressing.offsets? = some [0, 2, 2, 4]
        ∧ c.store = d.store := by
  have plain : unevenAcceptor.PlainAcceptor :=
    ⟨by decide, by decide, by unfold View.InRange; decide⟩
  obtain ⟨both, same⟩ := gathers_as_packed .tropical .one unevenAcceptor plain
  have gathered : ∃ c : Compact (Stock.acceptor.format .tropical .one), Compact.ofElements? ()
      (unevenAcceptor.view.marked Stock.acceptor.packing ()) = .ok c
        ∧ c.store.addressing.offsets? = some [0, 2, 2, 4] :=
    ⟨_, rfl, rfl⟩
  obtain ⟨c, made, offsets⟩ := gathered
  obtain ⟨d, packed⟩ := both.1 ⟨c, made⟩
  have equal : c.store = d.store := (same c d made packed).2.2 rfl
  rw [equal] at offsets
  exact ⟨plain, c, d, made, packed, offsets, equal⟩

end Transducer
