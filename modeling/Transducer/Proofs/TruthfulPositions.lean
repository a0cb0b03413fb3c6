import Transducer.Proofs.LimitedSink
import Transducer.Proofs.OrderlyReading
/-!
# Positions after failures

Sources and writers are told a position at first and keep it from then on, beside the transfer of
the bytes. A request is served whole, and is counted whole; what comes of the count when it is cut
short depends on why. A stream that ends counts what it still had. A reader that fails, and a sink
that takes a part of what it is given, leave the position in front of the request, although bytes
have moved. How many is told here from the sizes of the requests alone (`cutAfter`); readers and
sinks may change their minds between operations, so that they recover and fail again. Main
statement: after every run of operations, the position and what has been lost of the cut requests
make up the position at first and the bytes that have moved, for sources and for writers
(`position_accounts`).
-/
namespace Transducer

/-- What a request has been given when it is cut short, if one of them is; they are served in turn
from the bytes that are available. -/
def cutAfter : Nat → List Nat → Option Nat
  | _, [] => none
  | available, size :: sizes =>
    if size ≤ available then cutAfter (available - size) sizes else some available

/-! ## Requests to a reader -/

namespace Reader

variable {reader : Reader} {n : Nat} {sizes : List Nat}

/-- What it has still to deliver. -/
def content (reader : Reader) : List UInt8 := Delivery.content reader.pending

/-- The reader after a request. -/
def drawn (reader : Reader) (n : Nat) : Reader :=
  { reader with pending := (Delivery.fill n reader.pending).2 }

/-- What requests of these sizes take away without being counted: nothing, unless the reader fails
in one of them. -/
def lost (reader : Reader) (sizes : List Nat) : Nat :=
  if reader.failure.isSome then (cutAfter reader.content.length sizes).getD 0 else 0

theorem content_drawn (reader : Reader) (n : Nat) :
    (reader.drawn n).content = reader.content.drop n :=
  Delivery.content_fill_snd n reader.pending

theorem lost_nil (reader : Reader) : reader.lost [] = 0 := ite_self 0

theorem lost_of_le (enough : n ≤ reader.content.length) :
    reader.lost (n :: sizes) = (reader.drawn n).lost sizes := by
  simp only [lost, cutAfter, if_pos enough, content_drawn, List.length_drop]
  rfl

theorem lost_of_lt (short : reader.content.length < n) :
    reader.lost (n :: sizes) = if reader.failure.isSome then reader.content.length else 0 := by
  simp only [lost, cutAfter, if_neg (Nat.not_le.2 short), Option.getD_some]

end Reader

namespace Reading

variable {α β : Type} {reader : Reader} {position n : Nat} {sizes : List Nat}

theorem take_stream_of_le (enough : n ≤ reader.content.length) :
    take n (.stream reader position)
      = (.ok (reader.content.take n), .stream (reader.drawn n) (position + n)) := by
  have got : (Delivery.fill n reader.pending).1 = reader.content.take n := Delivery.fill_fst n _
  have whole : (reader.content.take n).length = n := List.length_take_of_le enough
  simp only [take, got, whole, if_true]
  rfl

/-- Only the end of a stream is counted; the reader has nothing left in either case. -/
theorem take_stream_of_lt (short : reader.content.length < n) (sizes : List Nat) :
    ∃ cause place, take n (.stream reader position) = (.error cause, .stream (reader.drawn n) place)
      ∧ place + reader.lost (n :: sizes) = position + reader.content.length := by
  have got : (Delivery.fill n reader.pending).1 = reader.content := by
    rw [Delivery.fill_fst]
    exact List.take_of_length_le (Nat.le_of_lt short)
  rw [Reader.lost_of_lt short]
  simp only [take, got, if_neg (Nat.ne_of_lt short), Reader.drawn]
  cases reader.failure with
  | some cause => exact ⟨cause, position, rfl, rfl⟩
  | none =>
    exact ⟨.shortRead n reader.content.length, position + reader.content.length, rfl, rfl⟩

/-- The reading makes requests of these sizes to a reader and takes bytes accordingly. -/
def Draws (x : Reading α) (reader : Reader) (position : Nat) (sizes : List Nat) : Prop :=
  ∃ after place taken, (x (.stream reader position)).2 = .stream after place
    ∧ after.failure = reader.failure
    ∧ reader.content = taken ++ after.content
    ∧ place + reader.lost sizes = position + taken.length

theorem draws_pure (a : α) (reader : Reader) (position : Nat) :
    (pure a : Reading α).Draws reader position [] :=
  ⟨reader, position, [], rfl, rfl, rfl, by rw [reader.lost_nil]; rfl⟩

theorem draws_fail (cause : Error) (reader : Reader) (position : Nat) :
    (fail cause : Reading α).Draws reader position [] :=
  ⟨reader, position, [], rfl, rfl, rfl, by rw [reader.lost_nil]; rfl⟩

/-- A request is served, and the rest goes on behind it, or it is the last. -/
theorem Draws.take_bind {f : List UInt8 → Reading β}
    (rest : n ≤ reader.content.length →
      (f (reader.content.take n)).Draws (reader.drawn n) (position + n) sizes) :
    (take n >>= f).Draws reader position (n :: sizes) := by
  change ∃ after place taken, (Reading.bind (take n) f (.stream reader position)).2 = _ ∧ _
  unfold Reading.bind
  rcases Nat.lt_or_ge reader.content.length n with short | enough
  · obtain ⟨cause, place, taken, counted⟩ := take_stream_of_lt short sizes
    refine ⟨reader.drawn n, place, reader.content, ?_, rfl, ?_, counted⟩
    · rw [taken]
    · rw [reader.content_drawn, List.drop_of_length_le (Nat.le_of_lt short), List.append_nil]
  · obtain ⟨after, place, taken, reached, failure, content, counted⟩ := rest enough
    refine ⟨after, place, reader.content.take n ++ taken, ?_, failure, ?_, ?_⟩
    · rw [take_stream_of_le enough]
      exact reached
    · rw [List.append_assoc, ← content, reader.content_drawn, List.take_append_drop]
    · rw [Reader.lost_of_le enough, counted, List.length_append, List.length_take_of_le enough,
        Nat.add_assoc]

theorem draws_take (n : Nat) (reader : Reader) (position : Nat) :
    (take n).Draws reader position [n] := by
  rw [← bind_pure (take n)]
  exact .take_bind fun _ => draws_pure _ _ _

theorem draws_value (L : Layout α) (reader : Reader) (position : Nat) :
    (value L).Draws reader position [L.size] :=
  .take_bind fun _ => draws_pure _ _ _

end Reading

/-! ## Calls of a source -/

/-- A call of a source. -/
inductive SourceCall : Type 1 where
  | value {α : Type} (L : Layout α)
  | bytes (n : Nat)
  | text
  | align (alignment : Nat)
  | region {α : Type} (L : Layout α) (length : Nat) (mode : ReadMode)

namespace SourceCall

/-- The source after the call. -/
def perform (source : Source) : SourceCall → Source
  | value L => (Reading.value L source).2
  | bytes n => (Reading.take n source).2
  | text => (Reading.text source).2
  | align alignment => (Reading.align alignment source).2
  | region L length mode => (Reading.region L length mode source).2

/-- The sizes of the requests that the call makes, one after the other, to a reader that delivers
these bytes. The length of a text is the first of them, if they are enough for a length. -/
def requests (content : List UInt8) (position : Nat) : SourceCall → List Nat
  | value L => [L.size]
  | bytes n => [n]
  | text =>
    let length := Layout.int32.decode (content.take Layout.int32.size)
    if 0 ≤ length then [Layout.int32.size, length.toInt.toNat] else [Layout.int32.size]
  | align alignment => if alignment = 0 then [] else [padding position alignment]
  | region L length _ => if length * L.size < Region.byteLimit then [length * L.size] else []

/-- The bytes that the call takes from the source. -/
def taken (source : Source) (call : SourceCall) : Nat := source.left - (call.perform source).left

/-- The bytes that the call takes from a stream and does not count. -/
def lost (source : Source) (call : SourceCall) : Nat :=
  match source with
  | .stream reader position => reader.lost (call.requests reader.content position)
  | .mapped .. => 0

theorem draws_text (reader : Reader) (position : Nat) :
    Reading.text.Draws reader position (text.requests reader.content position) := by
  unfold Reading.text Reading.value
  simp only [bind_assoc, pure_bind, requests]
  generalize length_eq : Layout.int32.decode (reader.content.take Layout.int32.size) = length
  by_cases proper : 0 ≤ length
  · rw [if_pos proper]
    refine .take_bind fun _ => ?_
    rw [length_eq, Reading.require, if_pos (decide_eq_true proper), pure_bind]
    refine .take_bind fun _ => ?_
    cases Text.ofUtf8? _ with
    | some s => exact Reading.draws_pure s _ _
    | none => exact Reading.draws_fail _ _ _
  · rw [if_neg proper]
    refine .take_bind fun _ => ?_
    rw [length_eq, decide_eq_false proper]
    exact Reading.draws_fail _ _ _

theorem draws_align (alignment : Nat) (reader : Reader) (position : Nat) :
    (Reading.align alignment).Draws reader position
      ((align alignment).requests reader.content position) := by
  unfold Reading.Draws Reading.align
  by_cases zero : alignment = 0
  · have refused : (Reading.fail (.fault .zeroAlignment) : Reading Unit).Draws reader position [] :=
      Reading.draws_fail _ reader position
    simp only [Source.position, paddingTo, requests, if_pos zero]
    exact refused
  · simp only [Source.position, paddingTo, requests, if_neg zero]
    exact Reading.Draws.take_bind fun _ => Reading.draws_pure () _ _

theorem draws_region {α : Type} (L : Layout α) (length : Nat) (mode : ReadMode) (reader : Reader)
    (position : Nat) : (Reading.region L length mode).Draws reader position
      ((region L length mode).requests reader.content position) := by
  have copied : Reading.region L length mode (.stream reader position)
      = Reading.copy L length (.stream reader position) := by
    cases mode <;> rfl
  unfold Reading.Draws
  rw [copied]
  unfold Reading.copy Region.byteLength
  by_cases small : length * L.size < Region.byteLimit
  · simp only [requests, if_pos small]
    exact Reading.Draws.take_bind fun _ => Reading.draws_pure _ _ _
  · simp only [requests, if_neg small]
    exact Reading.draws_fail _ reader position

/-- A call of a stream leaves a stream and draws its requests from the reader. -/
theorem draws_perform (c : SourceCall) (reader : Reader) (position : Nat) :
    ∃ after place taken, c.perform (.stream reader position) = .stream after place
      ∧ after.failure = reader.failure
      ∧ reader.content = taken ++ after.content
      ∧ place + c.lost (.stream reader position) = position + taken.length := by
  cases c with
  | value L => exact Reading.draws_value L reader position
  | bytes n => exact Reading.draws_take n reader position
  | text => exact draws_text reader position
  | align alignment => exact draws_align alignment reader position
  | region L length mode => exact draws_region L length mode reader position

theorem accounts (c : SourceCall) (reader : Reader) (position : Nat) :
    ∃ after place, c.perform (.stream reader position) = .stream after place
      ∧ after.failure = reader.failure
      ∧ place + c.lost (.stream reader position)
        = position + c.taken (.stream reader position) := by
  obtain ⟨after, place, taken, reached, failure, content, counted⟩ :=
    c.draws_perform reader position
  have size : c.taken (.stream reader position) = taken.length := by
    change reader.content.length - (c.perform (.stream reader position)).left = _
    rw [reached, content, List.length_append]
    exact Nat.add_sub_cancel _ _
  refine ⟨after, place, reached, failure, ?_⟩
  rw [counted, size]

end SourceCall

/-- A step of a stream in use. -/
inductive StreamStep : Type 1 where
  /-- From now on the reader delivers something else and fails otherwise. -/
  | renew (reader : Reader)
  | call (c : SourceCall)

namespace StreamStep

def perform (source : Source) : StreamStep → Source
  | .renew reader => .stream reader source.position
  | .call c => c.perform source

def taken (source : Source) : StreamStep → Nat
  | .renew _ => 0
  | .call c => c.taken source

def lost (source : Source) : StreamStep → Nat
  | .renew _ => 0
  | .call c => c.lost source

/-- The source after some steps. -/
def performAll (source : Source) (steps : List StreamStep) : Source :=
  steps.foldl perform source

/-- The sum of what the steps count each. -/
def total (count : Source → StreamStep → Nat) : Source → List StreamStep → Nat
  | _, [] => 0
  | source, step :: steps => count source step + total count (step.perform source) steps

theorem accounts (reader : Reader) (initial : Nat) (steps : List StreamStep) :
    (performAll (.stream reader initial) steps).position
        + total lost (.stream reader initial) steps
      = initial + total taken (.stream reader initial) steps := by
  induction steps generalizing reader initial with
  | nil => rfl
  | cons step steps ih =>
    cases step with
    | renew other =>
      simp only [total, lost, taken, Nat.zero_add]
      exact ih other initial
    | call c =>
      obtain ⟨after, place, reached, -, counted⟩ := c.accounts reader initial
      have rest := ih after place
      simp only [performAll, List.foldl_cons, total, lost, taken, perform, reached] at rest ⊢
      omega

/-- No reader comes that fails. -/
def Quiet : StreamStep → Prop
  | .renew reader => reader.failure = none
  | .call _ => True

/-- A stream that is delivered in pieces, interrupted and cut off, but never failed, loses
nothing. -/
theorem total_lost_eq_zero {reader : Reader} (quiet : reader.failure = none) (initial : Nat)
    {steps : List StreamStep} (others : ∀ step ∈ steps, step.Quiet) :
    total lost (.stream reader initial) steps = 0 := by
  induction steps generalizing reader initial with
  | nil => rfl
  | cons step steps ih =>
    obtain ⟨now, later⟩ := List.forall_mem_cons.1 others
    cases step with
    | renew other =>
      simp only [total, lost, Nat.zero_add]
      exact ih now initial later
    | call c =>
      obtain ⟨after, place, reached, failure, -⟩ := c.accounts reader initial
      have nothing : c.lost (.stream reader initial) = 0 := by
        simp [SourceCall.lost, Reader.lost, quiet]
      simp only [total, lost, perform, reached, nothing, Nat.zero_add]
      exact ih (failure.trans quiet) place later

end StreamStep

/-! ## Writers -/

namespace Writer

/-- The sizes of the pieces that a writer gives to its sink, one after the other. -/
def sizes : Nat → List Segment → List Nat
  | _, [] => []
  | position, .raw bytes :: rest => bytes.length :: sizes (position + bytes.length) rest
  | position, .aligned alignment :: rest =>
    if alignment = 0 then []
    else padding position alignment :: sizes (position + padding position alignment) rest
  | _, .refused _ :: _ => []

/-- What a sink takes of pieces of these sizes without their being counted: nothing, unless one of
them is too long for it. -/
def lost (w : Writer) (sizes : List Nat) : Nat :=
  (w.sink.room.bind fun room => cutAfter room sizes).getD 0

theorem lost_nil (w : Writer) : w.lost [] = 0 := by
  unfold lost
  cases w.sink.room <;> rfl

/-- What the sink has received more than before, the writer has counted or lost. -/
def Counts (w after : Writer) (sizes : List Nat) : Prop :=
  after.position + w.lost sizes + w.sink.received.length
    = w.position + after.sink.received.length

theorem counts_nil (w : Writer) : w.Counts w [] := by
  rw [Counts, w.lost_nil, Nat.add_zero]

/-- A piece is taken whole, and what comes later is counted from there, or it is the last. -/
theorem writeRaw_cases (w : Writer) (bytes : List UInt8) :
    (∃ after, w.writeRaw bytes = (.ok (), after) ∧ after.position = w.position + bytes.length
      ∧ ∀ last sizes, after.Counts last sizes → w.Counts last (bytes.length :: sizes))
    ∨ ∃ cause after, w.writeRaw bytes = (.error cause, after)
      ∧ ∀ sizes, w.Counts after (bytes.length :: sizes) := by
  unfold writeRaw Sink.take Counts lost
  cases w.sink.room with
  | none =>
    refine Or.inl ⟨_, rfl, rfl, fun last sizes later => ?_⟩
    simp only [Option.bind_none, Option.getD_none, List.length_append] at later ⊢
    omega
  | some room =>
    by_cases fits : bytes.length ≤ room
    · simp only [if_pos fits]
      refine Or.inl ⟨_, rfl, rfl, fun last sizes later => ?_⟩
      simp only [Option.bind_some, cutAfter, if_pos fits, List.take_of_length_le fits,
        List.length_append] at later ⊢
      omega
    · simp only [if_neg fits]
      refine Or.inr ⟨_, _, rfl, fun sizes => ?_⟩
      simp only [Option.bind_some, cutAfter, if_neg fits, Option.getD_some, List.length_append,
        List.length_take_of_le (Nat.le_of_not_le fits)]
      omega

/-- By induction on the segments: each is a piece, or stops the writer before there is one. -/
theorem counts_writeAll (w : Writer) (segments : List Segment) :
    w.Counts (w.writeAll segments).2 (sizes w.position segments) := by
  induction segments generalizing w with
  | nil => exact w.counts_nil
  | cons segment rest ih =>
    have piece (bytes : List UInt8) (written : w.write segment = w.writeRaw bytes) :
        w.Counts (w.writeAll (segment :: rest)).2
          (bytes.length :: sizes (w.position + bytes.length) rest) := by
      rw [writeAll, written]
      rcases w.writeRaw_cases bytes with ⟨after, taken, position, later⟩ | ⟨cause, after, cut, last⟩
      · rw [taken, ← position]
        exact later _ _ (ih after)
      · rw [cut]
        exact last _
    cases segment with
    | raw bytes => exact piece bytes rfl
    | aligned alignment =>
      by_cases zero : alignment = 0
      · rw [writeAll, write, paddingTo, sizes, if_pos zero, if_pos zero]
        exact w.counts_nil
      · have zeros := piece (List.replicate (padding w.position alignment) 0) (by
          rw [write, paddingTo, if_neg zero])
        rw [List.length_replicate] at zeros
        rw [sizes, if_neg zero]
        exact zeros
    | refused cause => exact w.counts_nil

theorem room_writeAll {w : Writer} (unlimited : w.sink.room = none) (segments : List Segment) :
    (w.writeAll segments).2.sink.room = none := by
  induction segments generalizing w with
  | nil => exact unlimited
  | cons segment rest ih =>
    have room := room_write unlimited segment
    rw [writeAll]
    generalize w.write segment = step at room
    obtain ⟨outcome, after⟩ := step
    cases outcome with
    | ok u => exact ih room
    | error cause => exact room

end Writer

/-- A step of a writer in use. -/
inductive WriterStep where
  /-- From now on the sink has this room and fails like this. -/
  | renew (room : Option Nat) (whenFull : Failure) (onFlush : Option Failure)
  | write (segments : List Segment)
  | flush

namespace WriterStep

def perform (w : Writer) : WriterStep → Writer
  | .renew room whenFull onFlush => { w with sink := ⟨w.sink.received, room, whenFull, onFlush⟩ }
  | .write segments => (w.writeAll segments).2
  | .flush => (w.writeFlushed []).2

def lost (w : Writer) : WriterStep → Nat
  | .write segments => w.lost (Writer.sizes w.position segments)
  | .renew .. | .flush => 0

def performAll (w : Writer) (steps : List WriterStep) : Writer := steps.foldl perform w

/-- The sum of what the steps lose each. -/
def totalLost : Writer → List WriterStep → Nat
  | _, [] => 0
  | w, step :: steps => step.lost w + totalLost (step.perform w) steps

theorem accounts_perform (w : Writer) (step : WriterStep) :
    (step.perform w).position + step.lost w + w.sink.received.length
      = w.position + (step.perform w).sink.received.length := by
  cases step with
  | renew room whenFull onFlush => rfl
  | write segments => exact w.counts_writeAll segments
  | flush => rfl

theorem accounts (w : Writer) (steps : List WriterStep) :
    (performAll w steps).position + totalLost w steps + w.sink.received.length
      = w.position + (performAll w steps).sink.received.length := by
  induction steps generalizing w with
  | nil => rfl
  | cons step steps ih =>
    have first := accounts_perform w step
    have rest := ih (step.perform w)
    simp only [performAll, List.foldl_cons, totalLost] at rest ⊢
    omega

/-- No sink comes that is full at some time. -/
def Roomy : WriterStep → Prop
  | .renew room .. => room = none
  | .write _ | .flush => True

theorem room_perform {w : Writer} (unlimited : w.sink.room = none) {step : WriterStep}
    (roomy : step.Roomy) : (step.perform w).sink.room = none := by
  cases step with
  | renew room whenFull onFlush => exact roomy
  | write segments => exact Writer.room_writeAll unlimited segments
  | flush => exact unlimited

theorem totalLost_eq_zero {w : Writer} (unlimited : w.sink.room = none) {steps : List WriterStep}
    (others : ∀ step ∈ steps, step.Roomy) : totalLost w steps = 0 := by
  induction steps generalizing w with
  | nil => rfl
  | cons step steps ih =>
    obtain ⟨now, later⟩ := List.forall_mem_cons.1 others
    have nothing : step.lost w = 0 := by
      cases step with
      | renew room whenFull onFlush => rfl
      | write segments => simp [lost, Writer.lost, unlimited]
      | flush => rfl
    rw [totalLost, nothing, Nat.zero_add]
    exact ih (room_perform unlimited now) later

end WriterStep

/-! ## Positions -/

/-- Whatever is asked of a stream, and whatever its readers do, its position and what it has lost
make up the position at first and the bytes that have been taken from the readers; so it stands
where its readers stand exactly if nothing has been lost, as when no reader fails. The same holds of
a writer, whatever it is given, and of the bytes that its sink has received, and nothing is lost
when there is always room. -/
theorem position_accounts (reader : Reader) (sink : Sink) (initial : Nat)
    (reads : List StreamStep) (writes : List WriterStep) :
    (let source := Source.stream reader initial
      let position := (StreamStep.performAll source reads).position
      let taken := StreamStep.total StreamStep.taken source reads
      let lost := StreamStep.total StreamStep.lost source reads
      position + lost = initial + taken
        ∧ (position = initial + taken ↔ lost = 0)
        ∧ (reader.failure = none → (∀ step ∈ reads, step.Quiet) → lost = 0))
    ∧ (let w : Writer := ⟨{ sink with received := [] }, initial⟩
      let after := WriterStep.performAll w writes
      let received := after.sink.received.length
      let lost := WriterStep.totalLost w writes
      after.position + lost = initial + received
        ∧ (after.position = initial + received ↔ lost = 0)
        ∧ (sink.room = none → (∀ step ∈ writes, step.Roomy) → lost = 0)) := by
  constructor
  · intro source position taken lost
    have sum : position + lost = initial + taken := StreamStep.accounts reader initial reads
    exact ⟨sum, by omega, fun quiet others =>
      StreamStep.total_lost_eq_zero quiet initial others⟩
  · intro w after received lost
    have sum : after.position + lost + 0 = initial + received := WriterStep.accounts w writes
    exact ⟨sum, by omega, fun unlimited others =>
      WriterStep.totalLost_eq_zero (w := w) unlimited others⟩

/-- Two bytes come before a reader fails, and two are taken before a sink does; neither position
counts them. -/
theorem not_position_truthful :
    let source := Source.stream ⟨[.bytes [1, 2]], some (.io "source failed")⟩ 0
    let reads := [StreamStep.call (.value Layout.uint32)]
    let w : Writer := ⟨Sink.limited 2 .nothingTaken, 0⟩
    let writes := [WriterStep.write [.value Layout.uint32 1]]
    (StreamStep.performAll source reads).position
        ≠ source.position + StreamStep.total StreamStep.taken source reads
      ∧ (WriterStep.performAll w writes).position
        ≠ w.position + (WriterStep.performAll w writes).sink.received.length := by
  decide

end Transducer
