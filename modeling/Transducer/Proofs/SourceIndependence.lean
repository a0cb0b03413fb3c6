import Transducer.Proofs.OrderlyReading
import Transducer.Proofs.StockPackings
import Transducer.Proofs.StoreFile
/-!
# A file is the same wherever it is read from

The comparison of two sources side by side is carried through the arrays of a store and through a
whole file (`Store.alike_read`, `Compact.alike_read`): machines that are read from both have the
same content, their arrays being borrowed or not. Main statement: a reader that delivers the bytes
in any pieces and a mapping of them, copied from or borrowed from, give the same machine and leave
their sources at the same position, or give the same error; no array is ever found in a place
where it cannot be borrowed (`read_sameEverywhere`).
-/
namespace Transducer

open Reading

namespace Store

variable {P : Packing} {w : OffsetWidth}

/-- Stores that differ at most in what is borrowed. -/
def SameContent (store other : Store P w) : Prop := store.lent false = other.lent false

theorem sameContent_grouped {k : Nat} {elements elements' : Region P.Element}
    (same : SameValues elements elements') (start : StateId) (numStates numArcs : Nat) :
    SameContent (⟨.grouped k, elements, start, numStates, numArcs⟩ : Store P w)
      ⟨.grouped k, elements', start, numStates, numArcs⟩ := by
  change elements.values = elements'.values at same
  simp only [SameContent, lent, same]

theorem sameContent_indexed {offsets offsets' : Region (Offset w)}
    {elements elements' : Region P.Element} (sameOffsets : SameValues offsets offsets')
    (same : SameValues elements elements') (start : StateId) (numStates numArcs : Nat) :
    SameContent (⟨.indexed offsets, elements, start, numStates, numArcs⟩ : Store P w)
      ⟨.indexed offsets', elements', start, numStates, numArcs⟩ := by
  change offsets.values = offsets'.values at sameOffsets
  change elements.values = elements'.values at same
  simp only [SameContent, lent, sameOffsets, same]

theorem alike_read (setting : Setting) (header : Header) (mode mode' : ReadMode) :
    Alike setting SameContent
      (read P w header (if header.isAligned then mode else .copy))
      (read P w header (if header.isAligned then mode' else .copy)) := by
  cases arity : P.arity with
  | fixed k =>
    rw [read_of_fixed arity, read_of_fixed arity]
    apply ((plain_require _ rfl).steady setting).bind
    rintro _ _ -
    apply ((plain_require _ rfl).steady setting).bind
    rintro _ _ -
    by_cases small : k * header.numStates.toInt.toNat < Region.byteLimit
    · rw [require_true (decide_eq_true small), pure_bind, pure_bind, ← bind_assoc, ← bind_assoc]
      apply (alike_padded header.isAligned P.layout _ mode mode').bind
      intro elements elements' same
      exact alike_pure (sameContent_grouped same _ _ _)
    · rw [decide_eq_false small]
      apply ((plain_readPad header.isAligned).steady setting).bind
      rintro _ _ -
      exact alike_fail _
  | indexed =>
    rw [read_of_indexed arity, read_of_indexed arity]
    apply ((plain_require _ rfl).steady setting).bind
    rintro _ _ -
    apply ((plain_require _ rfl).steady setting).bind
    rintro _ _ -
    apply (alike_padded header.isAligned (Offset.layout w) _ mode mode').bind
    intro offsets offsets' sameOffsets
    have values : offsets.values = offsets'.values := sameOffsets
    rw [← values]
    cases checkOffsets offsets.values with
    | error cause => exact alike_fail cause
    | ok _ =>
      apply (alike_pure (R := Eq) rfl).bind
      rintro _ _ -
      apply (alike_padded header.isAligned P.layout _ mode mode').bind
      intro elements elements' same
      exact alike_pure (sameContent_indexed sameOffsets same _ _ _)

theorem checkOffsets_proper {offsets : List (Offset w)} {cause : Error}
    (refused : checkOffsets offsets = .error cause) : cause.isMishap = false := by
  unfold checkOffsets at refused
  split at refused
  · cases refused
    rfl
  · split at refused <;> cases refused
    rfl

theorem orderly_read (header : Header) (mode : ReadMode) :
    (read P w header (if header.isAligned then mode else .copy)).Orderly := by
  cases arity : P.arity with
  | fixed k =>
    rw [read_of_fixed arity]
    apply (plain_require _ rfl).orderly.bind
    intro _
    apply (plain_require _ rfl).orderly.bind
    intro _
    by_cases small : k * header.numStates.toInt.toNat < Region.byteLimit
    · rw [require_true (decide_eq_true small), pure_bind, ← bind_assoc]
      apply (orderly_padded header.isAligned P.layout _ mode).bind
      exact fun elements => (Plain.pure _).orderly
    · rw [decide_eq_false small]
      apply (plain_readPad header.isAligned).orderly.bind
      exact fun _ => (Plain.refuse rfl).orderly
  | indexed =>
    rw [read_of_indexed arity]
    apply (plain_require _ rfl).orderly.bind
    intro _
    apply (plain_require _ rfl).orderly.bind
    intro _
    apply (orderly_padded header.isAligned (Offset.layout w) _ mode).bind
    intro offsets
    apply (plain_lift fun _ => checkOffsets_proper).orderly.bind
    intro _
    apply (orderly_padded header.isAligned P.layout _ mode).bind
    exact fun elements => (Plain.pure _).orderly

end Store

namespace Compact

variable {F : Format}

/-- Machines that differ at most in what is borrowed. -/
def SameContent (c d : Compact F) : Prop :=
  { c with store := c.store.lent false } = { d with store := d.store.lent false }

theorem sameContent_assemble (payload : F.packing.Payload) {store store' : Store F.packing F.width}
    (same : store.SameContent store') (properties : UInt64) (symbols : SymbolPair) :
    SameContent (assemble payload store properties symbols)
      (assemble payload store' properties symbols) := by
  change store.lent false = store'.lent false at same
  simp only [SameContent, assemble, same]

theorem alike_read (setting : Setting) (payload : F.packing.readPayload.Steady) (name : String)
    (mode mode' : ReadMode) :
    Alike setting SameContent (read F name mode) (read F name mode') := by
  unfold read
  apply ((plain_readHeader F name).steady setting).bind
  rintro header _ rfl
  apply ((SymbolPair.plain_read header).steady setting).bind
  rintro symbols _ rfl
  apply (payload setting).bind
  rintro payload _ rfl
  apply (Store.alike_read setting header mode mode').bind
  intro store store' same
  exact alike_pure (sameContent_assemble payload same header.properties symbols)

theorem orderly_read (payload : F.packing.readPayload.Orderly) (name : String)
    (mode : ReadMode) : (read F name mode).Orderly := by
  unfold read
  apply (plain_readHeader F name).orderly.bind
  intro header
  apply (SymbolPair.plain_read header).orderly.bind
  intro symbols
  apply payload.bind
  intro payload
  apply (Store.orderly_read header mode).bind
  exact fun store => (Plain.pure _).orderly

/-- Two readings that come to the same: machines with the same content and the same position after
them, or the same error. -/
inductive SameReading : Except Error (Compact F) × Source → Except Error (Compact F) × Source →
    Prop where
  | read {c d : Compact F} {after after' : Source} (content : c.SameContent d)
      (position : after.position = after'.position) : SameReading (.ok c, after) (.ok d, after')
  | refused (cause : Error) (after after' : Source) :
      SameReading (.error cause, after) (.error cause, after')

/-- Sources that offer the same bytes are read alike. -/
theorem sameReading_of_offers (payload : F.packing.readPayload.Steady) (name : String)
    (mode mode' : ReadMode) {lends lends' : Bool} {position : Nat} {bytes : List UInt8}
    {source source' : Source} (first : source.Offers lends position bytes)
    (second : source'.Offers lends' position bytes) :
    SameReading (read F name mode source) (read F name mode' source') := by
  have sides : SideBySide ⟨lends, lends', []⟩ position bytes source source' := by
    refine ⟨first, ?_⟩
    rw [List.append_nil]
    exact second
  have alike := alike_read ⟨lends, lends', []⟩ payload name mode mode' _ _ _ _ sides
  generalize read F name mode source = outcome at alike ⊢
  generalize read F name mode' source' = outcome' at alike ⊢
  cases alike with
  | failed cause after after' => exact .refused cause after after'
  | cut longer => exact absurd rfl longer
  | ok content sources =>
    apply SameReading.read content
    rw [sources.first.ahead.position_eq, sources.second.ahead.position_eq]

end Compact

/-- The bytes of a file are read alike from a reader that delivers them in any pieces, with any
interruptions, from a mapping that is copied, and from a mapping that is borrowed from. No reading
of a mapping finds an array where it cannot be borrowed. -/
theorem read_sameEverywhere (k : Stock) (algebra : Algebra) (width : OffsetWidth) (name : String)
    (pending : List Delivery) (mode : ReadMode) :
    Compact.SameReading
        (Compact.read (k.format algebra width) name mode (.stream ⟨pending, none⟩ 0))
        (Compact.read (k.format algebra width) name .copy
          (Source.ofMapping (Delivery.content pending)))
      ∧ Compact.SameReading
        (Compact.read (k.format algebra width) name .copy
          (Source.ofMapping (Delivery.content pending)))
        (Compact.read (k.format algebra width) name .borrow
          (Source.ofMapping (Delivery.content pending)))
      ∧ ∀ offset alignment, (Compact.read (k.format algebra width) name .borrow
          (Source.ofMapping (Delivery.content pending))).1
        ≠ .error (.misaligned offset alignment) := by
  have payload := k.plain_readPayload
  have streamed := Source.offers_stream pending 0
  have mapped := Source.offers_ofMapping (Delivery.content pending)
  refine ⟨?_, ?_, ?_⟩
  · exact Compact.sameReading_of_offers payload.steady name mode .copy streamed mapped
  · exact Compact.sameReading_of_offers payload.steady name .copy .borrow mapped mapped
  · intro offset alignment misaligned
    have proper := Compact.orderly_read (F := k.format algebra width) payload.orderly name .borrow
      _ (Source.sound_ofMapping (Delivery.content pending))
    cases proper.refuses _ misaligned

end Transducer
