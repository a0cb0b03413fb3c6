import Mathlib
import Transducer.Proofs.FileRoundTrip
import Transducer.Proofs.OwnFormat
/-!
# The payload of a file that is written directly

Three payloads can meet in a direct write: the one that is given, the one that the first pass
leaves when it has shown every entry to a copy of it, and the one of a source that is packed in
the format already. Entries are packed with the first; one of the other two is lent to the file
(`Origin.lent`). Packing first shows nothing to the payload and keeps the one that is given. So
the file is that of the packed machine under the lent payload (`sameOutcome_lent`), and since
payloads are read back from files, equal files have equal payloads (`payload_eq_of_write_eq`).
Main statement: the direct file is the file of the packed machine exactly when the lent payload is
the given one, and a source in the format lends the counts of its view
(`writeDirect_eq_write_iff_lent`).
-/
namespace Transducer

open Segment

/-! ## What is lent to a file -/

namespace Compact

variable {F : Format} {payload : F.packing.Payload} {origin : Origin F} {options : WriteOptions}

/-- The payload that is written behind the header. -/
def Origin.lent (payload : F.packing.Payload) : Origin F → F.packing.Payload
  | .same c => c.payload
  | .other v => shown payload v

/-- The counts of a packed machine are those of its view: its entries are refused when those of
the view are, and the word for its arcs is that of the arcs of the view. -/
structure CountsItsView (c : Compact F) : Prop where
  entries : checkEntries F c.view.numStates c.store.numElements = .ok ()
    ↔ c.view.Fits F.packing F.width
  arcs : c.view.Fits F.packing F.width
    → Int64.ofNat c.store.numArcs = Int64.ofNat c.view.totalArcs

/-- The counts behind the header are those of the view; those of a first pass always are. -/
def Origin.LendsCounts : Origin F → Prop
  | .same c => c.CountsItsView
  | .other _ => True

/-- Too many or too few entries are a mismatch. -/
theorem mismatch_of_checkEntries {numStates numEntries : Nat}
    (refused : checkEntries F numStates numEntries ≠ .ok ()) :
    ∃ reason, checkEntries F numStates numEntries = .error (.mismatch reason) := by
  cases arity : F.packing.arity with
  | fixed k =>
    rw [checkEntries_of_fixed arity] at refused ⊢
    split at refused
    · exact absurd rfl refused
    · rw [if_neg ‹_›]
      exact ⟨_, rfl⟩
  | indexed =>
    rw [checkEntries_of_indexed arity] at refused ⊢
    by_cases below : numEntries < 256 ^ F.width.bytes
    · rw [Offset.ofNat_of_lt below] at refused
      exact absurd rfl refused
    · rw [Offset.ofNat_of_le (Nat.not_lt.1 below)]
      exact ⟨_, rfl⟩

theorem directSegments?_of_checkEntries {counts : Tally F} {cause : Error}
    (checked : checkSource F.packing origin.view = .ok ())
    (tallied : tally payload origin = .ok counts)
    (refused : checkEntries F origin.view.numStates counts.numEntries = .error cause) :
    directSegments? payload origin options = .error cause := by
  unfold directSegments?
  simp only [checked, tallied, refused, bind, Except.bind]

/-- A source that lends the counts of its view is written as it would be packed, but under the
lent payload. -/
theorem sameOutcome_lent (payload : F.packing.Payload) (options : WriteOptions)
    (counts : origin.LendsCounts) :
    SameOutcome (writeDirect payload origin options Sink.unlimited) options
      ((ofView? payload origin.view).map fun c => c.withPayload (origin.lent payload)) := by
  cases origin with
  | other v => exact sameOutcome_shown payload v options
  | same c =>
    refine sameOutcome_of_tally (.same c) c.payload ?_ ?_
    · intro _ fits
      exact ⟨_, rfl, rfl, counts.entries.2 fits, counts.arcs fits⟩
    · intro checked excess
      obtain ⟨reason, refused⟩ := mismatch_of_checkEntries (mt counts.entries.1 excess)
      exact ⟨reason, directSegments?_of_checkEntries checked rfl refused⟩

/-- A source that is written as it is packed lends the counts of its view. -/
theorem lendsCounts_of_writeDirect {c : Compact F} {sink : Sink}
    (made : ofView? payload origin.view = .ok c)
    (packed : c.write options Sink.unlimited = (.ok (), sink))
    (direct : writeDirect payload origin options Sink.unlimited = (.ok (), sink)) :
    origin.LendsCounts := by
  cases origin with
  | other v => trivial
  | same d =>
    obtain ⟨checked, _⟩ := ofView?_eq_ok_iff.1 made
    have fits := fits_of_ofView? made
    obtain ⟨_, typeName, _⟩ := write_unlimited_eq_ok_iff.1 (congrArg Prod.fst packed)
    have entries : checkEntries F d.view.numStates d.store.numElements = .ok () := by
      by_contra refused
      obtain ⟨reason, stops⟩ := mismatch_of_checkEntries refused
      rw [writeDirect, directSegments?_of_checkEntries checked rfl stops] at direct
      cases direct
    have same : SameOutcome (writeDirect payload (.same d) options Sink.unlimited) options
        (ofView? payload d.view) := by
      change ofView? payload d.view = .ok c at made
      rw [made]
      exact direct.trans packed.symm
    obtain ⟨_, arcs⟩ := fits_and_numArcs_of_sameOutcome typeName (.same d) checked rfl entries same
    exact ⟨iff_of_true entries fits, fun _ => arcs⟩

/-! ## Payloads in files -/

/-- Payloads that are read back as they were written are told apart by their bytes, whatever follows
these: both are read from one source. -/
theorem payload_eq_of_append_eq (restores : ∀ lends payload,
      F.packing.readPayload.Undoes lends (F.packing.payloadSegments payload) payload)
    {one other : F.packing.Payload} {position : Nat} {bytes bytes' rest rest' : List UInt8}
    (stored : Emits position (F.packing.payloadSegments one) bytes)
    (stored' : Emits position (F.packing.payloadSegments other) bytes')
    (same : bytes ++ rest = bytes' ++ rest')
    (short : position + (bytes ++ rest).length < fileLimit) : one = other := by
  have short' := short
  rw [same] at short'
  rw [List.length_append] at short short'
  have ahead : (Source.mapped (List.replicate position 0 ++ (bytes ++ rest)) position).Ahead true
      position (bytes ++ rest) := .mapped List.length_replicate
  obtain ⟨_, reads, _⟩ := restores true one _ _ stored (by omega) _ rest ahead
  rw [same] at reads ahead
  obtain ⟨_, reads', _⟩ := restores true other _ _ stored' (by omega) _ rest' ahead
  rw [reads] at reads'
  exact Except.ok.inj (congrArg Prod.fst reads')

/-- Equal files have equal payloads: what stands in front of these is the same. -/
theorem payload_eq_of_write_eq (restores : ∀ lends payload,
      F.packing.readPayload.Undoes lends (F.packing.payloadSegments payload) payload)
    {c : Compact F} {other : F.packing.Payload} {sink : Sink} (good : c.error = none)
    (written : c.write options Sink.unlimited = (.ok (), sink))
    (again : (c.withPayload other).write options Sink.unlimited = (.ok (), sink))
    (short : sink.received.length < fileLimit) : c.payload = other := by
  have good' : (c.withPayload other).error = none := good
  rw [write, segments?_eq_ok good] at written
  rw [write, segments?_eq_ok good'] at again
  obtain ⟨_, bytes, form, emitted, rfl⟩ := emit_eq_ok_iff.1 written
  obtain ⟨_, bytes', form', emitted', same⟩ := emit_eq_ok_iff.1 again
  obtain rfl : bytes = bytes' := congrArg Sink.received same
  obtain rfl := Except.ok.inj form
  obtain rfl := Except.ok.inj form'
  obtain ⟨_, store, rfl, upTo, _⟩ := emitted.split
  obtain ⟨_, store', both, upTo', _⟩ := emitted'.split
  obtain ⟨front, payload, rfl, header, stored⟩ := upTo.split
  obtain ⟨front', payload', rfl, header', stored'⟩ := upTo'.split
  obtain rfl : front = front' := header.unique header'
  rw [List.append_assoc, List.append_assoc] at both
  change (front ++ payload ++ store).length < fileLimit at short
  rw [List.append_assoc, List.length_append] at short
  exact payload_eq_of_append_eq restores stored stored' (List.append_cancel_left both)
    (by omega)

end Compact

/-- What the direct writer makes of every source under every payload, whatever the packing does
with it: the file of the packed machine under the lent payload, or a failure of packing, if the
source lends the counts of its view. When payloads are read back as they were written, this is the
file of the packed machine itself exactly when the lent payload is the given one. -/
theorem writeDirect_eq_write_iff_lent {F : Format} (payload : F.packing.Payload)
    (origin : Compact.Origin F) (options : WriteOptions) :
    (origin.LendsCounts →
      Compact.SameOutcome (Compact.writeDirect payload origin options Sink.unlimited) options
        ((Compact.ofView? payload origin.view).map fun c => c.withPayload (origin.lent payload)))
      ∧ ((∀ lends payload,
          F.packing.readPayload.Undoes lends (F.packing.payloadSegments payload) payload) →
        ∀ c sink, Compact.ofView? payload origin.view = .ok c →
          c.write options Sink.unlimited = (.ok (), sink) → sink.received.length < fileLimit →
          (Compact.writeDirect payload origin options Sink.unlimited = (.ok (), sink)
            ↔ origin.LendsCounts ∧ origin.lent payload = payload)) := by
  refine ⟨Compact.sameOutcome_lent payload options, ?_⟩
  intro restores c sink made written short
  obtain ⟨given, _, _, good, _⟩ := Compact.frame_of_ofView made
  have under_lent (counts : origin.LendsCounts) :
      Compact.writeDirect payload origin options Sink.unlimited
        = (c.withPayload (origin.lent payload)).write options Sink.unlimited := by
    have same := Compact.sameOutcome_lent payload options counts
    rw [made] at same
    exact same
  constructor
  · intro direct
    have counts := Compact.lendsCounts_of_writeDirect made written direct
    rw [under_lent counts] at direct
    have kept := Compact.payload_eq_of_write_eq restores good written direct short
    exact ⟨counts, kept.symm.trans given⟩
  · intro ⟨counts, kept⟩
    rw [under_lent counts, kept, Compact.write_withPayload (by rw [given]), written]

/-! ## A payload that counts -/

/-- Pairs of labels, with a payload that counts the entries it has been shown. -/
def countedPairs : Format := ⟨.tropical, Packing.counting, .four⟩

/-- The first pass adds the number of all entries. -/
theorem shown_counting (n : Int64) (v : View) :
    Compact.shown (F := countedPairs) n v
      = n + Int64.ofNat (v.totalArcs + v.states.countP v.isFinal) := by
  have counted (entries : List Arc) : ∀ n : Int64,
      entries.foldl (fun (n : Int64) _ => n + 1) n = n + Int64.ofNat entries.length := by
    induction entries with
    | nil => simp
    | cons arc rest ih =>
      intro n
      rw [List.foldl_cons, ih, List.length_cons, Int64.ofNat_add, Int64.add_assoc, Int64.add_comm 1]
      rfl
  rw [← View.sum_entryCounts, View.entryCounts, ← List.length_flatMap, ← counted,
    List.foldl_flatMap]
  rfl

/-- A machine with two entries: an arc, and the final entry of the state it leads to. -/
def pairLine : Machine :=
  ⟨0, [⟨Weight.zero, [⟨1, 2, Weight.one, 1⟩]⟩, ⟨Weight.one, []⟩], SymbolPair.none⟩

/-- The machine packed under a payload of 7. -/
def countedLine : Compact countedPairs :=
  Compact.ofView (F := countedPairs) (7 : Int64) pairLine.view

/-- The machine written in its own format under its own payload, and a machine of no packing, whose
two entries are counted in the file. -/
theorem writeDirect_countedLine :
    (∃ c sink, Compact.ofView? (F := countedPairs) (7 : Int64) countedLine.view = .ok c
        ∧ c.write .standard Sink.unlimited = (.ok (), sink)
        ∧ Compact.writeDirect (F := countedPairs) (7 : Int64) (.same countedLine) .standard
          Sink.unlimited = (.ok (), sink))
      ∧ ∃ c : Compact countedPairs,
        Compact.ofView? (F := countedPairs) (7 : Int64) pairLine.view = .ok c
        ∧ Compact.writeDirect (F := countedPairs) (7 : Int64) (.other pairLine.view) .standard
          Sink.unlimited = (c.withPayload (9 : Int64)).write .standard Sink.unlimited := by
  have restores (lends : Bool) (n : Int64) : countedPairs.packing.readPayload.Undoes lends
      (countedPairs.packing.payloadSegments n) n := Reading.undoes_value Layout.int64 n
  have made : Compact.ofView? (F := countedPairs) (7 : Int64) countedLine.view
      = .ok (Compact.ofView (F := countedPairs) (7 : Int64) countedLine.view) := by
    cbv
  have counts : (Compact.Origin.same countedLine).LendsCounts := by
    refine ⟨iff_of_true ?_ (Compact.fits_of_ofView? made), fun _ => ?_⟩
    · cbv
    · cbv
  constructor
  · have written : ((Compact.ofView (F := countedPairs) (7 : Int64) countedLine.view).write
        .standard Sink.unlimited).1 = .ok () := by
      cbv
    have short : ((Compact.ofView (F := countedPairs) (7 : Int64) countedLine.view).write
        .standard Sink.unlimited).2.received.length < fileLimit := by
      cbv
    have kept : (Compact.Origin.same countedLine).lent (7 : Int64) = (7 : Int64) := by
      cbv
    obtain ⟨_, exact_files⟩ := writeDirect_eq_write_iff_lent (F := countedPairs) (7 : Int64)
      (.same countedLine) .standard
    exact ⟨_, _, made, Prod.ext written rfl,
      (exact_files restores _ _ made (Prod.ext written rfl) short).2 ⟨counts, kept⟩⟩
  · have packed : Compact.ofView? (F := countedPairs) (7 : Int64) pairLine.view
        = .ok countedLine := by
      cbv
    have lent : Compact.shown (F := countedPairs) (7 : Int64) pairLine.view = (9 : Int64) := by
      rw [shown_counting]
      cbv
    obtain ⟨file, _⟩ := writeDirect_eq_write_iff_lent (F := countedPairs) (7 : Int64)
      (.other pairLine.view) .standard
    have same := file trivial
    change Compact.SameOutcome _ _
      ((Compact.ofView? (F := countedPairs) (7 : Int64) pairLine.view).map fun c =>
        c.withPayload (Compact.shown (F := countedPairs) (7 : Int64) pairLine.view)) at same
    rw [packed, lent] at same
    exact ⟨countedLine, packed, same⟩

/-- Under a payload of 0, two entries are counted in the direct file and a source in the format
brings its payload of 7; the machine packed first has 0 in its file. -/
theorem not_writeDirect_eq_write :
    (∃ c, Compact.ofView? (F := countedPairs) (0 : Int64) pairLine.view = .ok c
        ∧ (c.write .standard Sink.unlimited).1 = .ok ()
        ∧ (Compact.writeDirect (F := countedPairs) (0 : Int64) (.other pairLine.view) .standard
          Sink.unlimited).1 = .ok ()
        ∧ (Compact.writeDirect (F := countedPairs) (0 : Int64) (.other pairLine.view) .standard
            Sink.unlimited).2.received
          ≠ (c.write .standard Sink.unlimited).2.received)
      ∧ ∃ c, Compact.ofView? (F := countedPairs) (0 : Int64) countedLine.view = .ok c
        ∧ (c.write .standard Sink.unlimited).1 = .ok ()
        ∧ (Compact.writeDirect (F := countedPairs) (0 : Int64) (.same countedLine) .standard
          Sink.unlimited).1 = .ok ()
        ∧ (Compact.writeDirect (F := countedPairs) (0 : Int64) (.same countedLine) .standard
            Sink.unlimited).2.received
          ≠ (c.write .standard Sink.unlimited).2.received := by
  refine ⟨⟨Compact.ofView (F := countedPairs) (0 : Int64) pairLine.view, ?_, ?_, ?_, ?_⟩,
    Compact.ofView (F := countedPairs) (0 : Int64) countedLine.view, ?_, ?_, ?_, ?_⟩
  · cbv
  · cbv
  · cbv
  · cbv
    decide
  · cbv
  · cbv
  · cbv
  · cbv
    decide

end Transducer
