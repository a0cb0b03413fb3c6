import Transducer.Packing.Stock
import Transducer.Proofs.Emission
import Transducer.Proofs.StockPackings
/-!
# Files that can be written

A file consists of texts, of values and arrays in plain layouts, and of paddings. Only a text can
keep it from being written, when its length does not fit a signed word. Main statement: an
unlimited sink takes the file of a machine exactly when the machine is not in error and its texts
and its payload can be written (`write_unlimited_eq_ok_iff`).
-/
namespace Transducer

open Segment

/-- The number of bytes of a text fits the word in front of it. -/
def TextFits (s : String) : Prop := (Text.utf8 s).length < 0x80000000

instance (s : String) : Decidable (TextFits s) := inferInstanceAs (Decidable (_ < _))

/-- The texts of a table fit. -/
def SymbolTable.TextsFit (table : SymbolTable) : Prop :=
  TextFits table.name ∧ ∀ entry ∈ table.entries, TextFits entry.1

instance (table : SymbolTable) : Decidable table.TextsFit :=
  inferInstanceAs (Decidable (_ ∧ ∀ _ ∈ _, _))

/-- The texts of the tables that are there fit. -/
def SymbolPair.TextsFit (tables : SymbolPair) : Prop :=
  (∀ table ∈ tables.input, table.TextsFit) ∧ ∀ table ∈ tables.output, table.TextsFit

theorem SymbolTable.writable_segments_iff {table : SymbolTable} :
    (∀ segment ∈ table.segments, segment.Writable) ↔ table.TextsFit := by
  unfold SymbolTable.segments SymbolTable.TextsFit TextFits
  simp only [List.forall_mem_append, List.forall_mem_cons, List.forall_mem_flatMap,
    List.not_mem_nil, false_implies, implies_true, writable_value, writable_text_iff, and_true,
    true_and]

theorem SymbolPair.writable_segments_iff {tables : SymbolPair} :
    (∀ segment ∈ tables.segments, segment.Writable) ↔ tables.TextsFit := by
  have one (table : Option SymbolTable) :
      (∀ segment ∈ table.elim [] SymbolTable.segments, segment.Writable)
        ↔ ∀ table' ∈ table, table'.TextsFit := by
    cases table with
    | none => simp
    | some table => simpa using SymbolTable.writable_segments_iff
  unfold SymbolPair.segments SymbolPair.TextsFit
  rw [List.forall_mem_append, one, one]

theorem Header.writable_segments_iff {h : Header} :
    (∀ segment ∈ h.segments, segment.Writable) ↔ TextFits h.typeName ∧ TextFits h.arcName := by
  unfold Header.segments TextFits
  simp only [List.forall_mem_append, List.forall_mem_cons, List.not_mem_nil, false_implies,
    implies_true, writable_value, writable_text_iff, and_true, true_and]

namespace Store

variable {P : Packing} {w : OffsetWidth}

theorem writable_padSegments (aligned : Bool) :
    ∀ segment ∈ padSegments aligned, segment.Writable := by
  cases aligned with
  | false => exact List.forall_mem_nil _
  | true =>
    intro segment member
    rw [List.mem_singleton.1 member]
    exact (by decide : 0 < fileAlignment)

theorem writable_segments (store : Store P w) (aligned : Bool) :
    ∀ segment ∈ store.segments aligned, segment.Writable := by
  have pads := writable_padSegments aligned
  unfold segments
  simp only [List.forall_mem_append, List.forall_mem_cons]
  refine ⟨⟨?_, pads⟩, writable_array _ _, List.forall_mem_nil _⟩
  split
  · exact List.forall_mem_nil _
  · rw [List.forall_mem_append, List.forall_mem_cons]
    exact ⟨pads, writable_array _ _, List.forall_mem_nil _⟩

end Store

theorem Algebra.textFits_arcName (algebra : Algebra) : TextFits algebra.arcName := by
  cases algebra <;> decide

theorem Stock.textFits_typeName (k : Stock) (algebra : Algebra) (width : OffsetWidth) :
    TextFits (k.format algebra width).typeName := by
  cases k <;> cases algebra <;> cases width <;> decide

namespace Compact

variable {F : Format} {c : Compact F} {options : WriteOptions}

/-- The file form of a machine without an error. -/
theorem segments?_eq_ok (good : c.error = none) : c.segments? options
    = .ok ((options.header F c.properties c.store.start c.store.numStates c.store.numArcs
        (options.select c.symbols)).segments ++ (options.select c.symbols).segments
      ++ F.packing.payloadSegments c.payload ++ c.store.segments options.aligned) := by
  unfold segments?
  rw [good]
  rfl

/-- What an unlimited sink takes: the file of a machine without an error, unless a text in it is
too long or the packing refuses to write its payload. -/
theorem write_unlimited_eq_ok_iff : (c.write options Sink.unlimited).1 = .ok ()
    ↔ c.error = none ∧ TextFits F.typeName ∧ (options.select c.symbols).TextsFit
      ∧ ∀ segment ∈ F.packing.payloadSegments c.payload, segment.Writable := by
  cases failed : c.error with
  | some cause =>
    rw [write, segments?_of_error failed]
    simp [emit]
  | none =>
    have store := c.store.writable_segments options.aligned
    rw [write, segments?_eq_ok failed, emit_unlimited_eq_ok_iff]
    simp only [List.forall_mem_append, Header.writable_segments_iff,
      SymbolPair.writable_segments_iff]
    constructor
    · rintro ⟨⟨⟨⟨typeName, _⟩, texts⟩, payload⟩, _⟩
      exact ⟨trivial, typeName, texts, payload⟩
    · rintro ⟨_, typeName, texts, payload⟩
      exact ⟨⟨⟨⟨typeName, F.algebra.textFits_arcName⟩, texts⟩, payload⟩, store⟩

/-- A machine without an error is written if nothing in it is refused. -/
theorem exists_write_eq_ok (good : c.error = none) (typeName : TextFits F.typeName)
    (texts : (options.select c.symbols).TextsFit)
    (payload : ∀ segment ∈ F.packing.payloadSegments c.payload, segment.Writable) :
    ∃ sink, c.write options Sink.unlimited = (.ok (), sink) :=
  ⟨_, Prod.ext (write_unlimited_eq_ok_iff.2 ⟨good, typeName, texts, payload⟩) rfl⟩

end Compact

/-- Stock packings have no payload to be written. -/
theorem Stock.payloadSegments_eq_nil (k : Stock) (payload : k.packing.Payload) :
    k.packing.payloadSegments payload = [] := by
  cases k <;> rfl

end Transducer
