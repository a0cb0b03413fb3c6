import Transducer.Error
import Transducer.Layout
import Transducer.Text.Utf8
/-!
# Writing

What is to be written is data: a list of segments, each of them raw bytes, zeros up to a multiple
of an alignment, or a refusal. A writer carries them to a sink one by one and keeps its position.
A sink may take only so many bytes; a segment that crosses its limit is taken up to there and
the position stays. How a sink fails is its own affair; the writer tells a sink that takes nothing
more from one that fails otherwise. Main statements: how many zeros a padding has, and that a
failing segment leaves the position where it was.
-/
namespace Transducer

/-- How many bytes are missing from `position` to the next multiple of `alignment`. -/
def padding (position alignment : Nat) : Nat :=
  if position % alignment = 0 then 0 else alignment - position % alignment

/-- As `padding`, refusing an alignment of zero. -/
def paddingTo (position alignment : Nat) : Except Error Nat :=
  if alignment = 0 then .error (.fault .zeroAlignment) else .ok (padding position alignment)

/-- The end of a padding is a multiple of the alignment. -/
theorem padding_aligns (position : Nat) {alignment : Nat} (h : 0 < alignment) :
    (position + padding position alignment) % alignment = 0 := by
  have below := Nat.mod_lt position h
  have whole := Nat.div_add_mod position alignment
  unfold padding
  split
  · assumption
  · have : position + (alignment - position % alignment)
        = alignment * (position / alignment + 1) := by rw [Nat.mul_add]; omega
    rw [this, Nat.mul_mod_right]

theorem padding_lt (position : Nat) {alignment : Nat} (h : 0 < alignment) :
    padding position alignment < alignment := by
  unfold padding
  split <;> omega

/-- The alignment of arrays in aligned files. -/
def fileAlignment : Nat := 16

/-- One step of writing. -/
inductive Segment where
  | raw (bytes : List UInt8)
  /-- Zeros up to the next multiple of an alignment. -/
  | aligned (alignment : Nat)
  /-- Nothing more can be written, for this cause. -/
  | refused (cause : Error)
  deriving DecidableEq, Repr

namespace Segment

def value {α : Type} (L : Layout α) (a : α) : Segment := raw (L.encode a)

def array {α : Type} (L : Layout α) (values : List α) : Segment := raw (L.encodeArray values)

/-- A text behind the number of its bytes, which has to fit a signed word. -/
def text (s : String) : List Segment :=
  let bytes := Text.utf8 s
  if bytes.length < 0x80000000 then
    [value Layout.int32 (Int32.ofNat bytes.length), raw bytes]
  else [refused (.badHeader (.longText bytes.length))]

end Segment

/-- The kinds of failures of the outside world that a writer tells apart. -/
inductive FailureKind where
  /-- No byte more was taken. -/
  | writeZero
  | other
  deriving DecidableEq, Repr

/-- A failure of the outside world, with its own words for it. -/
structure Failure where
  kind : FailureKind
  message : String
  deriving DecidableEq, Repr

namespace Failure

/-- What becomes of a write of which no byte more is taken. -/
def nothingTaken : Failure := ⟨.writeZero, "failed to write whole buffer"⟩

/-- The error that a failure of a sink is reported as. -/
def error (failure : Failure) : Error :=
  match failure.kind with
  | .writeZero => .shortWrite
  | .other => .io failure.message

end Failure

/-- Where bytes go: what has been taken so far, how much more will be taken, and the failures
of a full sink and of flushing. -/
structure Sink where
  received : List UInt8
  room : Option Nat
  whenFull : Failure
  onFlush : Option Failure
  deriving DecidableEq, Repr

namespace Sink

/-- A sink that takes everything. -/
def unlimited : Sink := ⟨[], none, .nothingTaken, none⟩

/-- Takes the bytes, or as many of them as there is room for. -/
def take (sink : Sink) (bytes : List UInt8) : Except Failure Unit × Sink :=
  match sink.room with
  | none => (.ok (), { sink with received := sink.received ++ bytes })
  | some room =>
    let taken := { sink with
      received := sink.received ++ bytes.take room
      room := some (room - bytes.length) }
    if bytes.length ≤ room then (.ok (), taken) else (.error sink.whenFull, taken)

def flush (sink : Sink) : Except Failure Unit :=
  match sink.onFlush with
  | none => .ok ()
  | some failure => .error failure

end Sink

/-- A sink with the position of the next byte in the file. -/
structure Writer where
  sink : Sink
  position : Nat
  deriving DecidableEq, Repr

namespace Writer

/-- Writes raw bytes; the position moves only when all of them are taken. -/
def writeRaw (w : Writer) (bytes : List UInt8) : Except Error Unit × Writer :=
  match w.sink.take bytes with
  | (.ok _, sink) => (.ok (), ⟨sink, w.position + bytes.length⟩)
  | (.error failure, sink) => (.error failure.error, { w with sink := sink })

/-- Flushes the sink. -/
def flush (w : Writer) : Except Error Unit := w.sink.flush.mapError Failure.error

def write (w : Writer) : Segment → Except Error Unit × Writer
  | .raw bytes => w.writeRaw bytes
  | .aligned alignment =>
    match paddingTo w.position alignment with
    | .ok pad => w.writeRaw (List.replicate pad 0)
    | .error cause => (.error cause, w)
  | .refused cause => (.error cause, w)

/-- Writes segments in order, up to the first failure. -/
def writeAll (w : Writer) : List Segment → Except Error Unit × Writer
  | [] => (.ok (), w)
  | segment :: rest =>
    match w.write segment with
    | (.ok _, after) => after.writeAll rest
    | (.error cause, after) => (.error cause, after)

/-- Writes all segments and flushes the sink. -/
def writeFlushed (w : Writer) (segments : List Segment) : Except Error Unit × Writer :=
  match w.writeAll segments with
  | (.ok _, after) => (after.flush, after)
  | failed => failed

/-- The bytes of segments written from a position, as far as they can be written. -/
def bytesFrom (position : Nat) (segments : List Segment) : List UInt8 :=
  ((Writer.mk Sink.unlimited position).writeAll segments).2.sink.received

theorem position_write_of_error {w after : Writer} {segment : Segment} {cause : Error}
    (h : w.write segment = (.error cause, after)) : after.position = w.position := by
  have raw (bytes : List UInt8) (h : w.writeRaw bytes = (.error cause, after)) :
      after.position = w.position := by
    unfold writeRaw at h
    split at h
    · cases h
    · cases h; rfl
  cases segment with
  | raw bytes => exact raw bytes h
  | aligned alignment =>
    simp only [write] at h
    split at h
    · exact raw _ h
    · cases h; rfl
  | refused cause => cases h; rfl

end Writer
end Transducer
