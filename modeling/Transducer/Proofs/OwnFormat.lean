import Transducer.Proofs.DecodedCounts
/-!
# Writing a packed machine in its own format

A machine that is already packed in the format of the file lends its counts to the direct writer
instead of having its entries counted. Main statements: the file is that of the machine packed
again when the view shows what the store counts (`sameOutcome_of_recounts`), and it can be that
file only if the entries that are shown fit and the arcs are as many as are counted
(`fits_and_numArcs_of_sameOutcome`).
-/
namespace Transducer

open Segment

section Rows

variable {P : Packing} {w : OffsetWidth} {store : Store P w} {rows : List (List P.Element)}

/-- A view whose states have as many entries as the rows of a store fits where the store fits. -/
theorem View.fits_of_holds {v : View} (holds : store.Holds rows)
    (counts : v.entryCounts = rows.map List.length) : v.Fits P w := by
  cases arity : P.arity with
  | fixed k =>
    rw [View.fits_iff_of_fixed arity, counts]
    exact holds.length_eq arity
  | indexed =>
    rw [View.fits_iff_of_indexed arity, counts]
    exact holds.sum_lt arity

end Rows

namespace Compact

variable {F : Format} {c : Compact F} {rows : List (List F.packing.Element)}

/-- The counts that a packed machine lends can be addressed. -/
theorem checkEntries_of_holds (holds : c.store.Holds rows) :
    checkEntries F c.store.numStates c.store.numElements = .ok () := by
  rw [holds.numElements, holds.numStates]
  cases arity : F.packing.arity with
  | fixed k =>
    have total := sum_take_of_forall_eq (holds.length_eq arity) (Nat.le_refl _)
    rw [List.take_length, List.length_map] at total
    rw [Nat.mul_comm] at total
    rw [checkEntries_of_fixed arity, if_pos (Arity.fills_of_eq total)]
  | indexed =>
    rw [checkEntries_of_indexed arity, Offset.ofNat_of_lt (holds.sum_lt arity)]
    rfl

/-- What a packed machine shows is what its store counts. -/
structure Recounts (c : Compact F) : Prop where
  arcs : c.view.totalArcs = c.store.numArcs
  heads : ∀ s ∈ c.view.states,
    (c.window s).head?.any (F.packing.isHollow c.payload) = false

theorem entryCounts_of_recounts (uniform : F.packing.Uniform c.payload) (recounts : c.Recounts)
    (shown : c.view.states.map c.window = rows) :
    c.view.entryCounts = rows.map List.length := by
  rw [View.entryCounts, ← shown, List.map_map]
  refine List.map_congr_left fun s state => ?_
  have entries := length_entries_view uniform s
  rw [recounts.heads s state] at entries
  exact entries

end Compact

/-- The count of arcs ends a header. -/
theorem Header.exists_front (h : Header) : ∃ front, ∀ numArcs : Int64,
    ({ h with numArcs := numArcs } : Header).segments
      = front ++ [.value Layout.int64 numArcs] := by
  refine ⟨[.value Layout.uint32 magic, .value Layout.int32 h.version,
    .value Layout.uint32 h.flags] ++ Segment.text h.typeName ++ Segment.text h.arcName
      ++ [.value Layout.uint64 h.properties, .value Layout.int64 h.start,
        .value Layout.int64 h.numStates], fun numArcs => ?_⟩
  unfold Header.segments
  simp

theorem Int64.ofNat_injective {m n : Nat} (hm : m < 2 ^ 64) (hn : n < 2 ^ 64)
    (same : Int64.ofNat m = Int64.ofNat n) : m = n := by
  have words := congrArg (fun x : Int64 => x.toBitVec.toNat) same
  simp only [Int64.toBitVec_ofNat', BitVec.toNat_ofNat] at words
  rwa [Nat.mod_eq_of_lt hm, Nat.mod_eq_of_lt hn] at words

/-- What a sink receives of a file starts with bytes that do not depend on the count of arcs, and
goes on with that count. -/
theorem Header.exists_received (h : Header) (typeName : TextFits h.typeName)
    (arcName : TextFits h.arcName) : ∃ front : List UInt8, ∀ numArcs rest, ∃ more,
      (Compact.emit (.ok (({ h with numArcs := numArcs } : Header).segments ++ rest))
        Sink.unlimited).2.received = front ++ (Layout.int64.encode numArcs ++ more) := by
  obtain ⟨front, segments⟩ := h.exists_front
  obtain ⟨bytes, emitted⟩ :=
    (exists_emits_iff 0).2 (Header.writable_segments_iff.2 ⟨typeName, arcName⟩)
  have same : h.segments = front ++ [.value Layout.int64 h.numArcs] := segments h.numArcs
  rw [same] at emitted
  obtain ⟨opening, _, _, opened, _⟩ := emitted.split
  refine ⟨opening, fun numArcs rest => ?_⟩
  obtain ⟨more, received⟩ :=
    Compact.received_emit (opened.append (emits_value_iff (a := numArcs).2 rfl)) rest
  refine ⟨more, ?_⟩
  rw [segments numArcs, received, List.append_assoc]

/-- A file whose header can be written is not empty. -/
theorem Header.received_ne_nil {h : Header} (typeName : TextFits h.typeName)
    (arcName : TextFits h.arcName) (rest : List Segment) :
    (Compact.emit (.ok (h.segments ++ rest)) Sink.unlimited).2.received ≠ [] := by
  intro empty
  obtain ⟨front, received⟩ := h.exists_received typeName arcName
  obtain ⟨more, something⟩ := received h.numArcs rest
  rw [show (_ : Sink).received = [] from empty] at something
  have length := congrArg List.length something
  have size := Layout.int64.size_pos
  rw [List.length_append, List.length_append, Layout.int64.length_encode, List.length_nil]
    at length
  omega

/-- Equal files behind headers that differ in the count of arcs have equal counts. -/
theorem Header.numArcs_of_emit_eq {h : Header} (typeName : TextFits h.typeName)
    (arcName : TextFits h.arcName) {m n : Int64} {xs ys : List Segment}
    (same : (Compact.emit (.ok (({ h with numArcs := m } : Header).segments ++ xs))
        Sink.unlimited).2
      = (Compact.emit (.ok (({ h with numArcs := n } : Header).segments ++ ys))
        Sink.unlimited).2) : m = n := by
  obtain ⟨front, received⟩ := h.exists_received typeName arcName
  obtain ⟨more, first⟩ := received m xs
  obtain ⟨more', second⟩ := received n ys
  rw [same, second] at first
  have tails := List.append_cancel_left first
  have lengths : (Layout.int64.encode n).length = (Layout.int64.encode m).length := by
    rw [Layout.int64.length_encode, Layout.int64.length_encode]
  have counts := (List.append_inj tails lengths).1
  rw [← Layout.int64.decode_encode m, ← counts, Layout.int64.decode_encode]

namespace Compact

section Format

variable {F : Format} {payload : F.packing.Payload} {options : WriteOptions}

/-- Equal outcomes come from entries that fit and from equal counts of arcs. -/
theorem fits_and_numArcs_of_sameOutcome (typeName : TextFits F.typeName) (origin : Origin F)
    {counts : Tally F} (checked : checkSource F.packing origin.view = .ok ())
    (tallied : tally payload origin = .ok counts)
    (entries : checkEntries F origin.view.numStates counts.numEntries = .ok ())
    (same : SameOutcome (writeDirect payload origin options Sink.unlimited) options
      (ofView? payload origin.view)) :
    origin.view.Fits F.packing F.width
      ∧ Int64.ofNat counts.numArcs = Int64.ofNat origin.view.totalArcs := by
  have form := directSegments?_of_counts payload options origin checked tallied entries
  simp only [List.append_assoc] at form
  rw [writeDirect, form] at same
  let h := options.header F (declaredBy F.packing origin.view) origin.view.start
    origin.view.numStates 0 (options.select origin.view.symbols)
  have arcName : TextFits h.arcName := F.algebra.textFits_arcName
  by_cases fits : origin.view.Fits F.packing F.width
  · refine ⟨fits, ?_⟩
    obtain ⟨again, made⟩ := ofView?_of_fits payload checked fits
    obtain ⟨_, properties, symbols, good, start, numStates, numArcs⟩ := frame_of_ofView made
    rw [made] at same
    change _ = again.write options Sink.unlimited at same
    rw [write, segments?_eq_ok good, properties, symbols, start, numStates, numArcs] at same
    simp only [List.append_assoc] at same
    exact Header.numArcs_of_emit_eq (h := h) typeName arcName (congrArg Prod.snd same)
  · obtain ⟨reason, refused⟩ := ofView?_of_not_fits payload checked fits
    rw [refused] at same
    obtain ⟨other, nothing, _⟩ := same
    have empty := congrArg (fun outcome => outcome.2.received) nothing
    have header : TextFits (options.header F (declaredBy F.packing origin.view) origin.view.start
        origin.view.numStates counts.numArcs (options.select origin.view.symbols)).typeName :=
      typeName
    exact absurd empty (Header.received_ne_nil header arcName _)

end Format

variable {k : Stock} {algebra : Algebra} {width : OffsetWidth}
  {c : Compact (k.format algebra width)} {rows : List (List k.packing.Element)}

/-- Equal counts make equal files. -/
theorem sameOutcome_of_recounts (payload : (k.format algebra width).packing.Payload)
    (options : WriteOptions) (checked : checkSource k.packing c.view = .ok ())
    (holds : c.store.Holds rows) (shown : c.view.states.map c.window = rows)
    (recounts : c.Recounts) :
    SameOutcome (writeDirect payload (.same c) options Sink.unlimited) options
      (ofView? payload c.view) := by
  have counts := entryCounts_of_recounts (k.uniform c.payload) recounts shown
  have fits : c.view.Fits k.packing width := View.fits_of_holds holds counts
  obtain ⟨again, made⟩ := ofView?_of_fits (F := k.format algebra width) payload checked fits
  rw [made]
  refine (writeDirect_of_tally (.same c) made rfl (checkEntries_of_holds holds)
    (congrArg Int64.ofNat recounts.arcs.symm)).trans (write_withPayload ?_ Sink.unlimited)
  exact (k.payloadSegments_eq_nil _).trans (k.payloadSegments_eq_nil _).symm

end Compact
end Transducer
