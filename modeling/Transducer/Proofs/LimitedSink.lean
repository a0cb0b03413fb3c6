import Transducer.Compact.Direct
import Transducer.Proofs.FileForm
/-!
# Sinks with a limit

A file is written in many small steps, and a sink that takes only some number of bytes may fail in
any of them: within an array, in a padding, in front of the last bytes. The same steps are followed
on two sinks. Up to the limit they differ in the room that is left only (`Writer.within`); the step
that crosses the limit fails, and what has been received by then is the beginning of what the other
sink receives in the end (`Writer.curtailed_writeAll`). Nothing is written when there is nothing
left to write, so a sink with just enough room takes the whole file. Main statement: a limited sink
receives an exact prefix (`limited_sink_receives_prefix`).
-/
namespace Transducer

/-- A sink that takes a number of bytes, of a write across the limit the first part, and then fails:
by taking no byte more (`Failure.nothingTaken`), or with a failure of its own. -/
def Sink.limited (room : Nat) (whenFull : Failure) : Sink := ⟨[], some room, whenFull, none⟩

/-- What comes of writing to a limited sink, from what comes of writing to an unlimited one. -/
structure CutAt (room : Nat) (whenFull : Failure)
    (whole cut : Except Error Unit × Sink) : Prop where
  outcome : cut.1 = if whole.2.received.length ≤ room then whole.1 else .error whenFull.error
  received : cut.2.received = whole.2.received.take room

namespace Writer

variable {w : Writer} {room : Nat} (whenFull : Failure)

/-- The same writer on a sink that takes only so many bytes in all. -/
def within (w : Writer) (room : Nat) (whenFull : Failure) : Writer :=
  ⟨{ w.sink with room := some (room - w.sink.received.length), whenFull := whenFull }, w.position⟩

/-- Where a writer is after some steps, beside the same steps with a limit. -/
inductive Curtailed (room : Nat) (whenFull : Failure) :
    Except Error Unit × Writer → Except Error Unit × Writer → Prop where
  /-- The limit has not been noticed. -/
  | fits {outcome : Except Error Unit} {after : Writer}
      (below : after.sink.received.length ≤ room) :
      Curtailed room whenFull (outcome, after) (outcome, after.within room whenFull)
  /-- The limited sink has failed, whatever has become of the other one. -/
  | cut {outcome : Except Error Unit} {after stopped : Writer}
      (above : room < after.sink.received.length)
      (received : stopped.sink.received = after.sink.received.take room) :
      Curtailed room whenFull (outcome, after) (.error whenFull.error, stopped)

theorem room_write (unlimited : w.sink.room = none) (segment : Segment) :
    (w.write segment).2.sink.room = none := by
  cases segment with
  | raw bytes =>
    rw [write_raw_of_unlimited unlimited]
    exact unlimited
  | aligned alignment =>
    rcases Nat.eq_zero_or_pos alignment with zero | positive
    · simp [write, paddingTo, zero, unlimited]
    · rw [write_aligned_of_unlimited unlimited positive]
      exact unlimited
  | refused cause => exact unlimited

theorem curtailed_writeRaw (unlimited : w.sink.room = none)
    (below : w.sink.received.length ≤ room) (bytes : List UInt8) :
    Curtailed room whenFull (w.writeRaw bytes) ((w.within room whenFull).writeRaw bytes) := by
  have whole : w.writeRaw bytes = (.ok (), w.pushed bytes) := write_raw_of_unlimited unlimited bytes
  have length : (w.pushed bytes).sink.received.length
      = w.sink.received.length + bytes.length := by simp [pushed]
  rw [whole]
  by_cases fits : bytes.length ≤ room - w.sink.received.length
  · have same : (w.within room whenFull).writeRaw bytes
        = (.ok (), (w.pushed bytes).within room whenFull) := by
      simp [writeRaw, Sink.take, within, pushed, fits, List.take_of_length_le fits, Nat.sub_sub]
    rw [same]
    exact .fits (by omega)
  · have failed : (w.within room whenFull).writeRaw bytes = (.error whenFull.error,
        ⟨{ (w.within room whenFull).sink with
            received := w.sink.received ++ bytes.take (room - w.sink.received.length)
            room := some (room - w.sink.received.length - bytes.length) }, w.position⟩) := by
      simp [writeRaw, Sink.take, within, fits]
    rw [failed]
    refine .cut (by omega) ?_
    simp [pushed, List.take_append, List.take_of_length_le below]

theorem curtailed_write (unlimited : w.sink.room = none) (below : w.sink.received.length ≤ room)
    (segment : Segment) :
    Curtailed room whenFull (w.write segment) ((w.within room whenFull).write segment) := by
  cases segment with
  | raw bytes => exact curtailed_writeRaw whenFull unlimited below bytes
  | aligned alignment =>
    have position : (w.within room whenFull).position = w.position := rfl
    unfold write
    simp only [position]
    cases paddingTo w.position alignment with
    | ok pad => exact curtailed_writeRaw whenFull unlimited below _
    | error cause => exact .fits below
  | refused cause => exact .fits below

/-- What has been received beyond the limit stays beyond it, and its beginning stays the same. -/
theorem Curtailed.further {whenFull : Failure} {later : Except Error Unit}
    {after final stopped : Writer} (above : room < after.sink.received.length)
    (received : stopped.sink.received = after.sink.received.take room)
    (grown : ∃ more, final.sink.received = after.sink.received ++ more) :
    Curtailed room whenFull (later, final) (.error whenFull.error, stopped) := by
  obtain ⟨more, grown⟩ := grown
  refine .cut ?_ ?_
  · rw [grown, List.length_append]
    omega
  · rw [grown, List.take_append_of_le_length (Nat.le_of_lt above)]
    exact received

/-- By induction on the segments: either the limit is noticed in the first of them, and the rest
only adds to what the unlimited sink has, or the rest goes on from the same place. -/
theorem curtailed_writeAll (unlimited : w.sink.room = none)
    (below : w.sink.received.length ≤ room) (segments : List Segment) :
    Curtailed room whenFull (w.writeAll segments)
      ((w.within room whenFull).writeAll segments) := by
  induction segments generalizing w with
  | nil => exact .fits below
  | cons segment rest ih =>
    have step := curtailed_write whenFull unlimited below segment
    have room_after := room_write unlimited segment
    unfold writeAll
    generalize w.write segment = whole at step room_after
    generalize (w.within room whenFull).write segment = limited at step
    cases step with
    | @fits outcome after below_after =>
      cases outcome with
      | ok u => exact ih room_after below_after
      | error cause => exact .fits below_after
    | @cut outcome after stopped above received =>
      cases outcome with
      | ok u => exact .further above received (received_writeAll after rest)
      | error cause => exact .cut above received

theorem curtailed_writeFlushed (unlimited : w.sink.room = none)
    (below : w.sink.received.length ≤ room) (segments : List Segment) :
    Curtailed room whenFull (w.writeFlushed segments)
      ((w.within room whenFull).writeFlushed segments) := by
  have run := curtailed_writeAll whenFull unlimited below segments
  unfold writeFlushed
  generalize w.writeAll segments = whole at run
  generalize (w.within room whenFull).writeAll segments = limited at run
  cases run with
  | @fits outcome after below_after => cases outcome <;> exact .fits below_after
  | @cut outcome after stopped above received => cases outcome <;> exact .cut above received

end Writer

namespace Compact

theorem emit_limited (form : Except Error (List Segment)) (room : Nat) (whenFull : Failure) :
    CutAt room whenFull (emit form Sink.unlimited) (emit form (Sink.limited room whenFull)) := by
  cases form with
  | error cause =>
    have nothing : CutAt room whenFull (.error cause, Sink.unlimited)
        (.error cause, Sink.limited room whenFull) := by
      constructor <;> simp [Sink.unlimited, Sink.limited]
    exact nothing
  | ok segments =>
    have run := Writer.curtailed_writeFlushed (w := ⟨Sink.unlimited, 0⟩) whenFull rfl
      (Nat.zero_le room) segments
    change Writer.Curtailed room whenFull _
      ((Writer.mk (Sink.limited room whenFull) 0).writeFlushed segments) at run
    rw [emit_ok, emit_ok]
    generalize (Writer.mk Sink.unlimited 0).writeFlushed segments = whole at run
    generalize (Writer.mk (Sink.limited room whenFull) 0).writeFlushed segments = limited at run
    cases run with
    | fits below => exact ⟨(if_pos below).symm, (List.take_of_length_le below).symm⟩
    | cut above received => exact ⟨(if_neg (Nat.not_le.2 above)).symm, received⟩

end Compact

/-- With a limited sink, a file is written as far as it goes and no further: the outcome is that of
an unlimited sink if there is room for all it receives, and what the failure of the full sink is
reported as otherwise (`Failure.error`); and what arrives are the first bytes of what an unlimited
sink receives. This holds for a machine and for a file that is written without packing a machine
first. A machine is written to an unlimited sink when it is not in error, unless a text in it is too
long or its packing refuses to be written. -/
theorem limited_sink_receives_prefix (F : Format) (options : WriteOptions) (room : Nat)
    (whenFull : Failure) :
    (∀ c : Compact F,
      CutAt room whenFull (c.write options Sink.unlimited)
          (c.write options (Sink.limited room whenFull))
        ∧ ((c.write options Sink.unlimited).1 = .ok ()
          ↔ c.error = none ∧ TextFits F.typeName ∧ (options.select c.symbols).TextsFit
            ∧ ∀ segment ∈ F.packing.payloadSegments c.payload, segment.Writable))
      ∧ ∀ (payload : F.packing.Payload) (origin : Compact.Origin F),
        CutAt room whenFull (Compact.writeDirect payload origin options Sink.unlimited)
          (Compact.writeDirect payload origin options (Sink.limited room whenFull)) := by
  refine ⟨fun c => ⟨?_, Compact.write_unlimited_eq_ok_iff⟩, fun payload origin => ?_⟩
  · exact Compact.emit_limited (c.segments? options) room whenFull
  · exact Compact.emit_limited (Compact.directSegments? payload origin options) room whenFull

end Transducer
