import Transducer.Region
import Transducer.Sink
/-!
# Reading

Bytes come from a reader, which delivers them in pieces of its own choosing, or from a mapping
that holds them all. A reading is a function of the source that keeps the source on failure, so
that the position stays known. Everything is read through one operation that takes a number of
bytes; arrays of a mapping may also be borrowed. Main statements: how many bytes a request to a
reader takes away, and that they are the first of those pending.
-/
namespace Transducer

/-- What a reader does when asked. An interruption is passed over. -/
inductive Delivery where
  | bytes (bytes : List UInt8)
  | interruption
  deriving DecidableEq, Repr

/-- A reader: what it has to deliver, and the failure it ends in, if it does not simply end. -/
structure Reader where
  pending : List Delivery
  failure : Option Error
  deriving DecidableEq, Repr

namespace Delivery

/-- The bytes of deliveries, in order. -/
def content : List Delivery → List UInt8
  | [] => []
  | bytes piece :: rest => piece ++ content rest
  | interruption :: rest => content rest

/-- Asks for `want` bytes, again and again until they are there or nothing is left; gives them
and what is still pending. -/
def fill : Nat → List Delivery → List UInt8 × List Delivery
  | _, [] => ([], [])
  | want, bytes piece :: rest =>
    if want ≤ piece.length then (piece.take want, bytes (piece.drop want) :: rest)
    else
      let (more, left) := fill (want - piece.length) rest
      (piece ++ more, left)
  | want, interruption :: rest =>
    if want = 0 then ([], interruption :: rest) else fill want rest

/-- A request gets the first bytes that are pending. -/
theorem fill_fst (want : Nat) (pending : List Delivery) :
    (fill want pending).1 = (content pending).take want := by
  induction pending generalizing want with
  | nil => simp [fill, content]
  | cons delivery rest ih =>
    cases delivery with
    | bytes piece =>
      simp only [fill, content]
      split
      · rename_i h; rw [List.take_append_of_le_length h]
      · rename_i h; simp [ih, List.take_append, List.take_of_length_le (Nat.le_of_not_le h)]
    | interruption =>
      simp only [fill, content]
      split
      · simp_all
      · exact ih want

/-- What a request leaves is the rest of what was pending. -/
theorem content_fill_snd (want : Nat) (pending : List Delivery) :
    content (fill want pending).2 = (content pending).drop want := by
  induction pending generalizing want with
  | nil => simp [fill, content]
  | cons delivery rest ih =>
    cases delivery with
    | bytes piece =>
      simp only [fill, content]
      split
      · rename_i h; simp [content, List.drop_append_of_le_length h]
      · rename_i h; simp [ih, List.drop_append, List.drop_of_length_le (Nat.le_of_not_le h)]
    | interruption =>
      simp only [fill, content]
      split
      · simp_all [content]
      · exact ih want

end Delivery

/-- A readable sequence of bytes that knows its position. -/
inductive Source where
  | stream (reader : Reader) (position : Nat)
  | mapped (bytes : List UInt8) (position : Nat)
  deriving DecidableEq, Repr

/-- Whether arrays are copied, or borrowed where the source allows it. -/
inductive ReadMode where
  | copy
  | borrow
  deriving DecidableEq, Repr

namespace Source

/-- A stream that delivers the bytes in one piece. -/
def ofBytes (bytes : List UInt8) : Source := stream ⟨[.bytes bytes], none⟩ 0

def ofMapping (bytes : List UInt8) : Source := mapped bytes 0

def position : Source → Nat
  | stream _ position => position
  | mapped _ position => position

/-- The number of bytes of a mapping. -/
def length? : Source → Option Nat
  | stream .. => none
  | mapped bytes _ => some bytes.length

end Source

/-- A computation that reads from a source and may fail. -/
def Reading (α : Type) := Source → Except Error α × Source

namespace Reading

variable {α β : Type}

protected def pure (a : α) : Reading α := fun source => (.ok a, source)

protected def bind (x : Reading α) (f : α → Reading β) : Reading β := fun source =>
  match x source with
  | (.ok a, after) => f a after
  | (.error cause, after) => (.error cause, after)

instance : Monad Reading where
  pure := Reading.pure
  bind := Reading.bind

/-- Stops with an error. -/
def fail (cause : Error) : Reading α := fun source => (.error cause, source)

/-- Goes on with a result, or stops with its error. -/
def lift : Except Error α → Reading α
  | .ok a => pure a
  | .error cause => fail cause

/-- Stops with an error unless the condition holds. -/
def require (condition : Bool) (cause : Error) : Reading Unit :=
  if condition then pure () else fail cause

/-- Takes the next `n` bytes. When fewer are left they are used up and the position follows; when
the reader fails, what it had delivered is lost and the position stays. -/
def take (n : Nat) : Reading (List UInt8)
  | .stream reader position =>
    let (got, pending) := Delivery.fill n reader.pending
    let after : Reader := { reader with pending := pending }
    if got.length = n then (.ok got, .stream after (position + n))
    else match reader.failure with
      | some cause => (.error cause, .stream after position)
      | none => (.error (.shortRead n got.length), .stream after (position + got.length))
  | .mapped bytes position =>
    let available := bytes.length - position
    if n ≤ available then
      (.ok ((bytes.drop position).take n), .mapped bytes (position + n))
    else (.error (.shortRead n available), .mapped bytes (position + available))

/-- Reads one value in its layout. -/
def value (L : Layout α) : Reading α := do
  return L.decode (← take L.size)

/-- Reads a text behind the number of its bytes. -/
def text : Reading String := do
  let length ← value Layout.int32
  require (0 ≤ length) (.badHeader (.negativeLength length))
  match Text.ofUtf8? (← take length.toInt.toNat) with
  | some text => return text
  | none => fail (.badHeader .notText)

/-- Passes over the bytes up to the next multiple of an alignment. -/
def align (alignment : Nat) : Reading Unit := fun source =>
  match paddingTo source.position alignment with
  | .ok pad => (do let _ ← take pad) source
  | .error cause => (.error cause, source)

/-- Borrows an array from a mapping at its position. -/
def borrow (L : Layout α) (length : Nat) (bytes : List UInt8) (position : Nat) :
    Except Error (Region α) × Source :=
  match Region.borrow L bytes position length with
  | .ok region => (.ok region, .mapped bytes (position + length * L.size))
  | .error cause => (.error cause, .mapped bytes position)

/-- Copies an array. -/
def copy (L : Layout α) (length : Nat) : Reading (Region α) := do
  let size ← lift (Region.byteLength L length)
  let bytes ← take size
  return Region.owned (L.decodeArray length bytes)

/-- Reads an array of `length` values. Only a mapping lends its bytes. -/
def region (L : Layout α) (length : Nat) (mode : ReadMode) : Reading (Region α) := fun source =>
  match mode, source with
  | .borrow, .mapped bytes position => borrow L length bytes position
  | _, source => copy L length source

end Reading
end Transducer
