import Transducer.Compact.Direct
import Transducer.Proofs.FileForm
import Transducer.Proofs.PackedView
/-!
# Writing without packing first

The direct writer counts the entries of a view in one pass and streams offsets and entries in
another. Its counts pass exactly when the entries fit (`counts_of_fits`), and what it streams are
the bytes of the arrays that packing would have built (`emits_stream`). Main statements: the file is
that of the machine packed first, under the payload of the first pass, and a failure is a failure
of packing, with nothing written (`sameOutcome_shown`); without a payload it is the very file of
that machine (`writeDirect_other`).
-/
namespace Transducer

open Segment

namespace Compact

variable {F : Format} {payload : F.packing.Payload} {v : View} {options : WriteOptions}

/-! ## Counts -/

/-- The payload after the first pass. -/
def shown (payload : F.packing.Payload) (v : View) : F.packing.Payload :=
  v.states.foldl (fun payload s => prepareAll F.packing payload s (v.entries s)) payload

theorem tally_other (payload : F.packing.Payload) (v : View) :
    tally payload (.other v)
      = (v.states.forM fun s => F.packing.checkState s (v.entries s).length) >>= fun _ =>
        .ok ⟨shown payload v, v.totalArcs, v.totalArcs + v.states.countP v.isFinal⟩ := rfl

theorem forM_checkState_of_fits {P : Packing} {w : OffsetWidth} (fits : v.Fits P w) :
    (v.states.forM fun s => P.checkState s (v.entries s).length) = .ok () := by
  cases arity : P.arity with
  | fixed k =>
    rw [View.fits_iff_of_fixed arity] at fits
    exact (View.forM_checkState_eq_ok_iff arity).2 fits
  | indexed =>
    refine forM_eq_ok_iff.2 fun s _ => ?_
    unfold Packing.checkState
    rw [arity]

theorem checkEntries_of_fixed {k : Nat} (arity : F.packing.arity = .fixed k)
    (numStates numEntries : Nat) : checkEntries F numStates numEntries
      = if Arity.fills k numStates numEntries then .ok ()
        else .error (.mismatch (.entries numEntries numStates k)) := by
  unfold checkEntries
  rw [arity]

theorem checkEntries_of_indexed (arity : F.packing.arity = .indexed)
    (numStates numEntries : Nat) : checkEntries F numStates numEntries
      = Offset.ofNat F.width numEntries >>= fun _ => .ok () := by
  unfold checkEntries
  rw [arity]
  rfl

/-- Entries that fit pass both passes over them. -/
theorem counts_of_fits (payload : F.packing.Payload) (fits : v.Fits F.packing F.width) :
    tally payload (.other v)
        = .ok ⟨shown payload v, v.totalArcs, v.totalArcs + v.states.countP v.isFinal⟩
      ∧ checkEntries F v.numStates (v.totalArcs + v.states.countP v.isFinal) = .ok () := by
  constructor
  · rw [tally_other, forM_checkState_of_fits fits]
    rfl
  · cases arity : F.packing.arity with
    | fixed k =>
      rw [View.fits_iff_of_fixed arity] at fits
      rw [checkEntries_of_fixed arity,
        if_pos (Arity.fills_of_eq (View.totalArcs_add_finals fits))]
    | indexed =>
      rw [View.fits_iff_of_indexed arity, View.sum_entryCounts] at fits
      rw [checkEntries_of_indexed arity, Offset.ofNat_of_lt fits]
      rfl

/-- Entries that do not fit are refused as a mismatch by one of the passes. -/
theorem counts_of_not_fits (payload : F.packing.Payload) (excess : ¬ v.Fits F.packing F.width) :
    (∃ reason, tally payload (.other v) = .error (.mismatch reason))
      ∨ ∃ counts reason, tally payload (.other v) = .ok counts
        ∧ checkEntries F v.numStates counts.numEntries = .error (.mismatch reason) := by
  cases arity : F.packing.arity with
  | fixed k =>
    rw [View.fits_iff_of_fixed arity, ← View.forM_checkState_eq_ok_iff arity] at excess
    cases checked : v.states.forM fun s => F.packing.checkState s (v.entries s).length with
    | ok u => exact absurd checked excess
    | error cause =>
      obtain ⟨reason, rfl⟩ := View.mismatch_of_forM_checkState checked
      refine Or.inl ⟨reason, ?_⟩
      rw [tally_other, checked]
      rfl
  | indexed =>
    have checked : (v.states.forM fun s => F.packing.checkState s (v.entries s).length)
        = .ok () := by
      refine forM_eq_ok_iff.2 fun s _ => ?_
      unfold Packing.checkState
      rw [arity]
    rw [View.fits_iff_of_indexed arity, View.sum_entryCounts] at excess
    refine Or.inr ⟨⟨shown payload v, v.totalArcs, v.totalArcs + v.states.countP v.isFinal⟩,
      .offset (v.totalArcs + v.states.countP v.isFinal) F.width.bits, ?_, ?_⟩
    · rw [tally_other, checked]
      rfl
    · rw [checkEntries_of_indexed arity, Offset.ofNat_of_le (Nat.not_lt.1 excess)]
      rfl

/-! ## Streaming -/

theorem offsetSegment_val {w : OffsetWidth} (offset : Offset w) :
    offsetSegment w offset.val = .value (Offset.layout w) offset := by
  unfold offsetSegment
  rw [Offset.ofNat_of_lt offset.isLt]

/-- The streamed entries are the elements of a store that holds them, one by one. -/
theorem entrySegments_eq {store : Store F.packing F.width}
    (holds : store.Holds (Store.rowsOf F.packing payload v)) :
    entrySegments F payload v = store.elements.values.map (.value F.packing.layout) := by
  rw [holds.elements, entrySegments, Store.rowsOf, List.map_flatten, List.map_map,
    List.flatMap_def]
  congr 1
  refine List.map_congr_left fun s _ => ?_
  simp [Packing.packState]

/-- Streaming gives the bytes of a store that holds the packed entries. -/
theorem emits_stream {store : Store F.packing F.width}
    (holds : store.Holds (Store.rowsOf F.packing payload v)) (aligned : Bool) (position : Nat) :
    ∃ bytes, Emits position (offsetSegments F v aligned ++ Store.padSegments aligned
          ++ entrySegments F payload v) bytes
        ∧ Emits position (store.segments aligned) bytes := by
  obtain ⟨bytes, written⟩ :=
    (exists_emits_iff position).2 (store.writable_segments aligned)
  refine ⟨bytes, ?_, written⟩
  have arity := holds.arity
  have cuts := holds.cuts
  rw [Store.map_length_rowsOf] at cuts
  unfold Store.segments at written
  obtain ⟨front, elements, rfl, front_written, elements_written⟩ := written.split
  obtain ⟨ways, pad, rfl, ways_written, pad_written⟩ := front_written.split
  rw [entrySegments_eq holds]
  rw [emits_array_iff] at elements_written
  subst elements_written
  refine (Emits.append ?_ pad_written).append (emits_values _ _ _)
  cases addressing : store.addressing with
  | grouped k =>
    rw [addressing] at arity ways_written
    unfold offsetSegments
    rw [← arity]
    exact ways_written
  | indexed offsets =>
    rw [addressing] at arity cuts ways_written
    obtain ⟨gap, table, rfl, gap_written, table_written⟩ := ways_written.split
    rw [emits_array_iff] at table_written
    subst table_written
    unfold offsetSegments
    rw [← arity]
    change Emits _ (_ ++ (runningSums 0 v.entryCounts).map _) _
    rw [← cuts, List.map_map]
    have each : (offsetSegment F.width ∘ fun offset : Offset F.width => offset.val)
        = .value (Offset.layout F.width) := by
      funext offset
      exact offsetSegment_val offset
    rw [each]
    exact gap_written.append (emits_values _ _ _)

/-! ## Files -/

/-- The form of a file that is written directly, when the source is accepted. -/
theorem directSegments?_of_counts (payload : F.packing.Payload) (options : WriteOptions)
    (origin : Origin F) {counts : Tally F}
    (checked : checkSource F.packing origin.view = .ok ())
    (tallied : tally payload origin = .ok counts)
    (entries : checkEntries F origin.view.numStates counts.numEntries = .ok ()) :
    directSegments? payload origin options
      = .ok ((options.header F (declaredBy F.packing origin.view) origin.view.start
          origin.view.numStates counts.numArcs (options.select origin.view.symbols)).segments
        ++ (options.select origin.view.symbols).segments
        ++ F.packing.payloadSegments counts.payload
        ++ (offsetSegments F origin.view options.aligned ++ Store.padSegments options.aligned
          ++ entrySegments F payload origin.view)) := by
  unfold directSegments?
  simp only [checked, tallied, entries, bind, Except.bind, pure, Except.pure, List.append_assoc]

theorem directSegments?_of_checkSource (origin : Origin F) {cause : Error}
    (refused : checkSource F.packing origin.view = .error cause) :
    directSegments? payload origin options = .error cause := by
  unfold directSegments?
  simp only [refused, bind, Except.bind]

theorem directSegments?_of_not_fits (payload : F.packing.Payload) (options : WriteOptions)
    (checked : checkSource F.packing v = .ok ())
    (excess : ¬ v.Fits F.packing F.width) :
    ∃ reason, directSegments? payload (.other v) options = .error (.mismatch reason) := by
  have accepted : checkSource F.packing (Origin.other (F := F) v).view = .ok () := checked
  unfold directSegments?
  rcases counts_of_not_fits payload excess with ⟨reason, failed⟩
    | ⟨counts, reason, tallied, failed⟩
  · exact ⟨reason, by simp only [accepted, failed, bind, Except.bind]⟩
  · refine ⟨reason, ?_⟩
    change checkEntries F (Origin.other (F := F) v).view.numStates _ = _ at failed
    simp only [accepted, tallied, failed, bind, Except.bind]

/-- A source that passes its check is packed when its entries fit, and only then. -/
theorem ofView?_of_fits (payload : F.packing.Payload) (checked : checkSource F.packing v = .ok ())
    (fits : v.Fits F.packing F.width) : ∃ c : Compact F, ofView? payload v = .ok c := by
  obtain ⟨store, made, _⟩ := Store.ofView_of_fits payload fits
  exact ⟨_, ofView?_eq_ok_iff.2 ⟨checked, store, made, rfl⟩⟩

theorem fits_of_ofView? {c : Compact F} (h : ofView? payload v = .ok c) :
    v.Fits F.packing F.width := by
  obtain ⟨_, store, made, _⟩ := ofView?_eq_ok_iff.1 h
  exact Store.fits_of_ofView made

theorem ofView?_of_checkSource (payload : F.packing.Payload) {cause : Error}
    (refused : checkSource F.packing v = .error cause) :
    ofView? (F := F) payload v = .error cause := by
  unfold ofView?
  rw [refused]
  rfl

theorem ofView?_of_not_fits (payload : F.packing.Payload)
    (checked : checkSource F.packing v = .ok ()) (excess : ¬ v.Fits F.packing F.width) :
    ∃ reason, ofView? (F := F) payload v = .error (.mismatch reason) := by
  obtain ⟨reason, failed⟩ := Store.ofView_of_not_fits payload excess
  refine ⟨reason, ?_⟩
  unfold ofView?
  rw [checked]
  simp only [failed, bind, Except.bind]

/-- Writing directly comes to the same as building a machine and writing that: the same outcome
with the same bytes, or, if it cannot be built, a failure of the same kind and no byte. -/
def SameOutcome (written : Except Error Unit × Sink) (options : WriteOptions) :
    Except Error (Compact F) → Prop
  | .ok c => written = c.write options Sink.unlimited
  | .error cause => ∃ other, written = (.error other, Sink.unlimited) ∧ other.kind = cause.kind

/-- A packed machine under another payload. -/
def withPayload (c : Compact F) (payload : F.packing.Payload) : Compact F :=
  { c with payload := payload }

/-- Payloads that are written alike make the same file. -/
theorem write_withPayload {c : Compact F} {other : F.packing.Payload}
    (kept : F.packing.payloadSegments other = F.packing.payloadSegments c.payload) (sink : Sink) :
    (c.withPayload other).write options sink = c.write options sink := by
  unfold write segments? withPayload
  simp only [kept]

/-- The file of a packed machine, written without packing it: the first pass chooses the payload
and has to count what the view shows. -/
theorem writeDirect_of_tally (origin : Origin F) {counts : Tally F} {c : Compact F}
    (made : ofView? payload origin.view = .ok c) (tallied : tally payload origin = .ok counts)
    (entries : checkEntries F origin.view.numStates counts.numEntries = .ok ())
    (arcs : Int64.ofNat counts.numArcs = Int64.ofNat origin.view.totalArcs) :
    writeDirect payload origin options Sink.unlimited
      = (c.withPayload counts.payload).write options Sink.unlimited := by
  obtain ⟨checked, _⟩ := ofView?_eq_ok_iff.1 made
  obtain ⟨_, properties, symbols, good, start, numStates, numArcs⟩ := frame_of_ofView made
  have header : options.header F (declaredBy F.packing origin.view) origin.view.start
        origin.view.numStates counts.numArcs (options.select origin.view.symbols)
      = options.header F c.properties c.store.start c.store.numStates c.store.numArcs
        (options.select c.symbols) := by
    unfold WriteOptions.header
    rw [arcs, properties, symbols, start, numStates, numArcs]
  have form : (c.withPayload counts.payload).segments? options = _ := segments?_eq_ok good
  rw [writeDirect, directSegments?_of_counts payload options origin checked tallied entries, header,
    ← symbols, write, form]
  exact emit_congr _ (emits_stream (store_holds_of_ofView made) options.aligned)

/-- Two passes that stop exactly where packing stops, and count what the view shows, make the file
of the packed machine under the payload of the first pass. -/
theorem sameOutcome_of_tally (origin : Origin F) (lent : F.packing.Payload)
    (pass : checkSource F.packing origin.view = .ok () → origin.view.Fits F.packing F.width →
      ∃ counts, tally payload origin = .ok counts ∧ counts.payload = lent
        ∧ checkEntries F origin.view.numStates counts.numEntries = .ok ()
        ∧ Int64.ofNat counts.numArcs = Int64.ofNat origin.view.totalArcs)
    (stop : checkSource F.packing origin.view = .ok () → ¬ origin.view.Fits F.packing F.width →
      ∃ reason, directSegments? payload origin options = .error (.mismatch reason)) :
    SameOutcome (writeDirect payload origin options Sink.unlimited) options
      ((ofView? payload origin.view).map fun c => c.withPayload lent) := by
  cases checked : checkSource F.packing origin.view with
  | error cause =>
    rw [ofView?_of_checkSource payload checked, writeDirect,
      directSegments?_of_checkSource origin checked]
    exact ⟨cause, rfl, rfl⟩
  | ok u =>
    by_cases fits : origin.view.Fits F.packing F.width
    · obtain ⟨c, made⟩ := ofView?_of_fits payload checked fits
      obtain ⟨counts, tallied, rfl, entries, arcs⟩ := pass checked fits
      rw [made]
      exact writeDirect_of_tally origin made tallied entries arcs
    · obtain ⟨reason, refused⟩ := ofView?_of_not_fits payload checked fits
      obtain ⟨other, failed⟩ := stop checked fits
      rw [refused, writeDirect, failed]
      exact ⟨_, rfl, rfl⟩

/-- A view is written as it would be packed, but under the payload that has been shown its
entries. -/
theorem sameOutcome_shown (payload : F.packing.Payload) (v : View) (options : WriteOptions) :
    SameOutcome (writeDirect payload (.other v) options Sink.unlimited) options
      ((ofView? payload v).map fun c => c.withPayload (shown payload v)) := by
  refine sameOutcome_of_tally (.other v) (shown payload v) ?_ ?_
  · intro _ fits
    obtain ⟨tallied, entries⟩ := counts_of_fits payload fits
    exact ⟨_, tallied, rfl, entries, rfl⟩
  · intro checked excess
    exact directSegments?_of_not_fits payload options checked excess

/-- The file of a packed machine whose payload is written as it was before. -/
theorem writeDirect_of_ofView {c : Compact F} (made : ofView? payload v = .ok c)
    (kept : F.packing.payloadSegments (shown payload v) = F.packing.payloadSegments payload) :
    writeDirect payload (.other v) options Sink.unlimited = c.write options Sink.unlimited := by
  have same := sameOutcome_shown payload v options
  rw [made] at same
  refine same.trans (write_withPayload ?_ Sink.unlimited)
  rw [kept, (frame_of_ofView made).1]

/-- Whatever keeps packing from succeeding keeps the direct writer from it. -/
theorem sameOutcome_other (k : Stock) (algebra : Algebra) (width : OffsetWidth)
    (payload : (k.format algebra width).packing.Payload) (v : View) (options : WriteOptions) :
    SameOutcome (writeDirect payload (.other v) options Sink.unlimited) options
      (ofView? payload v) := by
  have same := sameOutcome_shown payload v options
  cases made : ofView? payload v with
  | error cause =>
    rw [made] at same
    exact same
  | ok c =>
    exact writeDirect_of_ofView made
      ((k.payloadSegments_eq_nil _).trans (k.payloadSegments_eq_nil _).symm)

end Compact

/-- For every view and every stock packing the direct writer does what packing and writing do; it
succeeds exactly when packing does, if the texts of the tables to be written fit. -/
theorem writeDirect_other (k : Stock) (algebra : Algebra) (width : OffsetWidth)
    (payload : (k.format algebra width).packing.Payload) (v : View) (options : WriteOptions) :
    Compact.SameOutcome (Compact.writeDirect payload (.other v) options Sink.unlimited) options
        (Compact.ofView? payload v)
      ∧ ((options.select v.symbols).TextsFit →
        ((Compact.writeDirect payload (.other v) options Sink.unlimited).1 = .ok ()
          ↔ ∃ c, Compact.ofView? payload v = .ok c)) := by
  have same := Compact.sameOutcome_other k algebra width payload v options
  refine ⟨same, fun texts => ?_⟩
  cases made : Compact.ofView? payload v with
  | error cause =>
    rw [made] at same
    obtain ⟨other, written, _⟩ := same
    rw [written]
    constructor
    · intro impossible
      cases impossible
    · intro ⟨c, impossible⟩
      cases impossible
  | ok c =>
    rw [made] at same
    obtain ⟨_, _, symbols, good, _⟩ := Compact.frame_of_ofView made
    rw [← symbols] at texts
    have payloads : ∀ segment ∈ k.packing.payloadSegments c.payload, segment.Writable := by
      rw [k.payloadSegments_eq_nil]
      exact List.forall_mem_nil _
    obtain ⟨sink, written⟩ := Compact.exists_write_eq_ok good (k.textFits_typeName algebra width)
      texts payloads
    change _ = c.write options Sink.unlimited at same
    rw [same, written]
    exact ⟨fun _ => ⟨c, rfl⟩, fun _ => rfl⟩

end Transducer
