import Transducer.Compact.File
import Transducer.Packing.Stock
/-!
# What file parts are read with

Header, symbol tables and payloads are read by nothing but requests for bytes, paddings, pure
computations and refusals: they are plain. Whatever is closed under sequences and holds of these
four is then a law of the parts of a file, by induction. Only arrays are not plain, since they may
be borrowed.
-/
namespace Transducer

/-- Whether an error speaks of a call outside its domain, or of an array in the wrong place, rather
than of the bytes that were found. -/
def Error.isMishap : Error → Bool
  | .fault _ => true
  | .misaligned .. => true
  | _ => false

namespace Reading

/-- Readings made of requests, paddings, computations and refusals of what was found. -/
inductive Plain : {α : Type} → Reading α → Prop where
  | pure {α : Type} (a : α) : Plain (pure a)
  | refuse {α : Type} {cause : Error} (proper : cause.isMishap = false) :
      Plain (fail cause : Reading α)
  | take (n : Nat) : Plain (take n)
  | align {alignment : Nat} (positive : 0 < alignment) : Plain (align alignment)
  | bind {α β : Type} {x : Reading α} {f : α → Reading β} (first : Plain x)
      (second : ∀ a, Plain (f a)) : Plain (x >>= f)

variable {α : Type}

theorem plain_require (condition : Bool) {cause : Error} (proper : cause.isMishap = false) :
    (require condition cause).Plain := by
  cases condition with
  | true => exact .pure ()
  | false => exact .refuse proper

theorem plain_lift {outcome : Except Error α}
    (proper : ∀ cause, outcome = .error cause → cause.isMishap = false) :
    (lift outcome).Plain := by
  cases outcome with
  | ok a => exact .pure a
  | error cause => exact .refuse (proper cause rfl)

theorem plain_value (L : Layout α) : (value L).Plain :=
  (Plain.take L.size).bind fun bytes => .pure (L.decode bytes)

theorem plain_text : text.Plain := by
  unfold text
  apply (plain_value Layout.int32).bind
  intro length
  apply (plain_require _ rfl).bind
  intro _
  apply (Plain.take _).bind
  intro bytes
  cases Text.ofUtf8? bytes with
  | some s => exact .pure s
  | none => exact .refuse rfl

theorem plain_byteLength (L : Layout α) (length : Nat) :
    (lift (Region.byteLength L length)).Plain := by
  apply plain_lift
  intro cause long
  unfold Region.byteLength at long
  split at long <;> cases long
  rfl

theorem plain_copy (L : Layout α) (length : Nat) : (copy L length).Plain := by
  apply (plain_byteLength L length).bind
  intro size
  exact (Plain.take size).bind fun bytes => .pure _

end Reading

open Reading

theorem Header.plain_read (source : String) : (Header.read source).Plain := by
  unfold Header.read
  apply (plain_value _).bind
  intro found
  apply (plain_require _ rfl).bind
  intro _
  apply (plain_value _).bind
  intro version
  apply (plain_value _).bind
  intro flags
  apply plain_text.bind
  intro typeName
  apply plain_text.bind
  intro arcName
  apply (plain_value _).bind
  intro properties
  apply (plain_value _).bind
  intro start
  apply (plain_value _).bind
  intro numStates
  apply (plain_value _).bind
  intro numArcs
  exact (plain_require _ rfl).bind fun _ => .pure _

namespace SymbolTable

theorem plain_readEntries (count : Nat) (table : SymbolTable) :
    (readEntries count table).Plain := by
  induction count generalizing table with
  | zero => exact .pure table
  | succ count ih =>
    unfold readEntries
    apply plain_text.bind
    intro symbol
    apply (plain_value _).bind
    intro key
    apply (plain_require _ rfl).bind
    intro _
    exact ih (table.push symbol key)

theorem plain_read : SymbolTable.read.Plain := by
  unfold SymbolTable.read
  apply (plain_value _).bind
  intro found
  apply (plain_require _ rfl).bind
  intro _
  apply plain_text.bind
  intro name
  apply (plain_value _).bind
  intro available
  apply (plain_value _).bind
  intro count
  apply (plain_require _ rfl).bind
  intro _
  exact (plain_readEntries _ _).bind fun table => .pure _

end SymbolTable

namespace SymbolPair

theorem plain_readOne (there : Bool) : (readOne there).Plain := by
  cases there with
  | false => exact .pure (Option.none : Option SymbolTable)
  | true => exact SymbolTable.plain_read.bind fun table => .pure (some table)

theorem plain_read (h : Header) : (SymbolPair.read h).Plain := by
  unfold SymbolPair.read
  apply (plain_readOne _).bind
  intro input
  exact (plain_readOne _).bind fun output => .pure (SymbolPair.mk input output)

end SymbolPair

theorem Compact.plain_readHeader (F : Format) (source : String) :
    (Compact.readHeader F source).Plain := by
  unfold Compact.readHeader
  apply (Header.plain_read source).bind
  intro found
  apply (plain_require _ rfl).bind
  intro _
  apply (plain_require _ rfl).bind
  intro _
  apply (plain_require _ rfl).bind
  intro _
  exact (plain_require _ rfl).bind fun _ => .pure _

theorem Store.plain_readPad (aligned : Bool) : (Store.readPad aligned).Plain := by
  cases aligned with
  | false => exact .pure ()
  | true => exact .align (Nat.succ_pos 15)

/-- Stock packings have no payload in files. -/
theorem Stock.plain_readPayload (k : Stock) : k.packing.readPayload.Plain := by
  cases k <;> exact .pure ()

end Transducer
