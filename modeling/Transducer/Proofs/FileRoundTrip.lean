import Transducer.Proofs.FileForm
import Transducer.Proofs.HeaderForm
import Transducer.Proofs.ObtainedMachines
import Transducer.Proofs.StoreFile
import Transducer.Proofs.SymbolTables
/-!
# Files, both ways

The file of a packed machine reads back as that machine, with the symbol tables that were selected
for it. Each part of the file is undone by its own reader; what remains is that the header is one
its reader accepts and that it announces exactly the parts that follow (`undoes_readHeader`,
`undoes_read`). Main statement: every file that is written is read back, in every mode, from a
stream and from a mapping alike (`read_of_write`).
-/
namespace Transducer

open Segment Reading

namespace Compact

variable {F : Format} {lends : Bool}

/-- A start that a file may have: none, or one of the states. -/
def StartsInside (start : StateId) (numStates : Nat) : Prop :=
  start = noState ∨ (0 ≤ start.toInt ∧ start.toInt < numStates)

instance (start : StateId) (numStates : Nat) : Decidable (StartsInside start numStates) :=
  inferInstanceAs (Decidable (_ ∨ (_ ∧ _)))

/-- Starts that files may have pass the check of a header that announces them. -/
theorem startOk_of_startsInside {h : Header} {start : StateId} {numStates : Nat}
    (inside : StartsInside start numStates) (states_small : numStates ≤ 2147483647)
    (start_eq : h.start = start.toInt64) (states_eq : h.numStates = Int64.ofNat numStates) :
    (decide (h.numStates ≤ 2147483647) && (h.start == noState.toInt64
      || (decide (0 ≤ h.start) && decide (h.start < h.numStates)))) = true := by
  have limit : 2147483647 < fileLimit := by decide
  have states_value : h.numStates.toInt = numStates := by
    rw [states_eq]
    exact Int64.toInt_ofNat_of_lt (Nat.lt_of_le_of_lt states_small limit)
  have states_ok : h.numStates ≤ 2147483647 := by
    rw [Int64.le_iff_toInt_le, states_value]
    exact Int.ofNat_le.2 states_small
  rw [decide_eq_true states_ok, Bool.true_and, Bool.or_eq_true, Bool.and_eq_true]
  rcases inside with none_ | ⟨nonneg, below⟩
  · refine Or.inl (beq_iff_eq.2 ?_)
    rw [start_eq, none_]
  · refine Or.inr ⟨decide_eq_true ?_, decide_eq_true ?_⟩
    · rw [Int64.le_iff_toInt_le, start_eq, Int32.toInt_toInt64]
      exact nonneg
    · rw [Int64.lt_iff_toInt_lt, start_eq, Int32.toInt_toInt64, states_value]
      exact below

/-- What a reader checks of a header besides its start. -/
structure Fitting (F : Format) (h : Header) : Prop where
  counts : (decide (0 ≤ h.numStates) && decide (0 ≤ h.numArcs)) = true
  version : decide (oldestVersion ≤ h.version) = true
  aligned : ¬ (h.version = alignedVersion ∧ (!h.isAligned) = true)
  typeName : (h.typeName == F.typeName) = true
  arcName : (h.arcName == F.algebra.arcName) = true

theorem fitting_header (options : WriteOptions) (properties : UInt64) (start : StateId)
    {numStates numArcs : Nat} (symbols : SymbolPair) (states_small : numStates ≤ 2147483647)
    (arcs_small : numArcs < fileLimit) :
    Fitting F (options.header F properties start numStates numArcs symbols) := by
  generalize found : options.header F properties start numStates numArcs symbols = h
  have limit : 2147483647 < fileLimit := by decide
  have states_eq : h.numStates = Int64.ofNat numStates := by rw [← found]; rfl
  have arcs_eq : h.numArcs = Int64.ofNat numArcs := by rw [← found]; rfl
  have version_eq : h.version = if options.aligned then alignedVersion else fileVersion := by
    rw [← found]
    rfl
  constructor
  case counts =>
    rw [states_eq, arcs_eq, Store.nonneg_ofNat (Nat.lt_of_le_of_lt states_small limit),
      Store.nonneg_ofNat arcs_small]
    rfl
  case version =>
    rw [version_eq]
    cases options.aligned <;> decide
  case aligned =>
    obtain ⟨flag, _⟩ := h.isAligned_flagWord (a := options.aligned) (i := symbols.input.isSome)
      (o := symbols.output.isSome) (by rw [← found]; rfl)
    rw [flag, version_eq]
    cases options.aligned <;> decide
  case typeName =>
    rw [← found]
    exact beq_self_eq_true F.typeName
  case arcName =>
    rw [← found]
    exact beq_self_eq_true F.algebra.arcName

/-- The headers that are written are accepted, as they are. -/
theorem undoes_readHeader (options : WriteOptions) (properties : UInt64) {start : StateId}
    {numStates numArcs : Nat} (symbols : SymbolPair) (name : String)
    (inside : StartsInside start numStates) (states_small : numStates ≤ 2147483647)
    (arcs_small : numArcs < fileLimit) :
    (readHeader F name).Undoes lends
      (options.header F properties start numStates numArcs symbols).segments
      (options.header F properties start numStates numArcs symbols) := by
  have fitting := fitting_header (F := F) options properties start symbols states_small arcs_small
  generalize found : options.header F properties start numStates numArcs symbols = h at fitting ⊢
  have start_ok := startOk_of_startsInside (h := h) inside states_small (by rw [← found]; rfl)
    (by rw [← found]; rfl)
  have both : (readHeader F name).Undoes lends (h.segments ++ []) h := by
    refine (h.undoes_read name fitting.counts).bind (Undoes.require fitting.version ?_)
    rw [if_neg fitting.aligned]
    exact Undoes.require fitting.typeName (Undoes.require fitting.arcName
      (Undoes.require start_ok (undoes_pure h)))
  rwa [List.append_nil] at both

/-- Stock packings have no payload to be read. -/
theorem undoes_payload_of_stock {P : Packing} (stock : ∃ k : Stock, P = k.packing)
    (payload : P.Payload) : P.readPayload.Undoes lends (P.payloadSegments payload) payload := by
  obtain ⟨k, rfl⟩ := stock
  cases k <;> exact undoes_pure _

/-- What a file keeps of a machine, with some symbol tables and with its arrays borrowed or not. -/
structure Kept (c d : Compact F) (symbols : SymbolPair) (borrowed : Bool) : Prop where
  start : d.store.start = c.store.start
  numStates : d.store.numStates = c.store.numStates
  numArcs : d.store.numArcs = c.store.numArcs
  offsets : d.store.addressing.offsets? = c.store.addressing.offsets?
  elements : d.store.elements.values = c.store.elements.values
  properties : d.properties = c.properties
  typeName : d.view.typeName = c.view.typeName
  payload : d.payload = c.payload
  symbols : d.symbols = symbols
  error : d.error = none
  borrowed : d.store.isBorrowed = borrowed

theorem offsets?_lent {P : Packing} {w : OffsetWidth} (store : Store P w) (borrowed : Bool) :
    (store.lent borrowed).addressing.offsets? = store.addressing.offsets? := by
  unfold Store.lent
  cases store.addressing <;> rfl

/-- Tables that come back from files. -/
def TablesKept (symbols : SymbolPair) : Prop :=
  ∀ table, symbols.input = some table ∨ symbols.output = some table →
    table.Reachable ∧ table.keys.Nodup ∧ table.KeysBounded

theorem undoes_symbols {symbols : SymbolPair} (tables : TablesKept symbols)
    (options : WriteOptions) {h : Header} (flags : h.flags = Header.flagWord options.aligned
      (options.select symbols).input.isSome (options.select symbols).output.isSome) :
    (SymbolPair.read h).Undoes lends (options.select symbols).segments
      (options.select symbols) := by
  obtain ⟨_, input, output⟩ := h.isAligned_flagWord flags
  refine SymbolPair.undoes_read input output ?_ ?_
  · intro table member
    unfold WriteOptions.select at member
    split at member
    · obtain ⟨reachable, distinct, bounded⟩ := tables table (Or.inl member)
      exact SymbolTable.undoes_read reachable distinct bounded
    · cases member
  · intro table member
    unfold WriteOptions.select at member
    simp only at member
    split at member
    · obtain ⟨reachable, distinct, bounded⟩ := tables table (Or.inr member)
      exact SymbolTable.undoes_read reachable distinct bounded
    · cases member

/-- The parts of a file come back one after the other. -/
theorem undoes_read {c : Compact F} {rows : List (List F.packing.Element)}
    (holds : c.store.Holds rows) (inside : StartsInside c.store.start c.store.numStates)
    (states_small : c.store.numStates ≤ 2147483647) (arcs_small : c.store.numArcs < fileLimit)
    (tables : TablesKept c.symbols)
    (payload : F.packing.readPayload.Undoes lends (F.packing.payloadSegments c.payload) c.payload)
    (options : WriteOptions) (name : String) (mode : ReadMode) :
    (read F name mode).Undoes lends
      ((options.header F c.properties c.store.start c.store.numStates c.store.numArcs
          (options.select c.symbols)).segments ++ ((options.select c.symbols).segments
        ++ (F.packing.payloadSegments c.payload ++ c.store.segments options.aligned)))
      (assemble c.payload (c.store.lent (Store.borrows options.aligned mode lends)) c.properties
        (options.select c.symbols)) := by
  have limit : 2147483647 < fileLimit := by decide
  have header : (readHeader F name).Undoes lends _ _ := undoes_readHeader options c.properties
    (options.select c.symbols) name inside states_small arcs_small
  generalize found : options.header F c.properties c.store.start c.store.numStates c.store.numArcs
    (options.select c.symbols) = h at header ⊢
  have flags : h.flags = Header.flagWord options.aligned (options.select c.symbols).input.isSome
      (options.select c.symbols).output.isSome := by
    rw [← found]
    rfl
  have announced : Store.Announced h c.store.start c.store.numStates c.store.numArcs := by
    refine Store.announced_of_eq ?_ ?_ (Nat.lt_of_le_of_lt states_small limit) ?_ arcs_small <;>
      rw [← found] <;> rfl
  have properties : h.properties = c.properties := by
    rw [← found]
    rfl
  have store : (Store.read F.packing F.width h _).Undoes lends _ _ :=
    Store.undoes_read holds announced mode
  rw [(h.isAligned_flagWord flags).1] at store
  unfold read
  refine header.bind ((undoes_symbols tables options flags).bind (payload.bind ?_))
  rw [(h.isAligned_flagWord flags).1, properties]
  exact store.map fun store => assemble c.payload store c.properties (options.select c.symbols)

/-- A file with the elements of a machine is too short for a number of arcs past the limit. -/
theorem numArcs_lt_of_emits {c : Compact F} (stored : c.HoldsRows) {front : List Segment}
    {aligned : Bool} {position : Nat} {bytes : List UInt8}
    (emitted : Emits position (front ++ c.store.segments aligned) bytes)
    (short : bytes.length < fileLimit) : c.store.numArcs < fileLimit := by
  obtain ⟨rows, holds, counted⟩ := stored
  obtain ⟨_, stored, rfl, _, inside⟩ := emitted.split
  have elements := Store.length_elements_le inside
  rw [List.length_append] at short
  omega

/-- What was written is read back from its bytes, whatever follows them. -/
theorem exists_yields_of_write {c : Compact F} (stored : c.HoldsRows) (good : c.error = none)
    (inside : StartsInside c.store.start c.store.numStates)
    (states_small : c.store.numStates ≤ 2147483647) (tables : TablesKept c.symbols)
    (payload : F.packing.readPayload.Undoes lends (F.packing.payloadSegments c.payload) c.payload)
    {options : WriteOptions} {sink : Sink}
    (written : c.write options Sink.unlimited = (.ok (), sink))
    (short : sink.received.length < fileLimit) (name : String) (mode : ReadMode) :
    ∃ d, (read F name mode).Yields lends 0 sink.received d
      ∧ c.Kept d (options.select c.symbols) (Store.borrows options.aligned mode lends) := by
  obtain ⟨segments, bytes, form, emitted, rfl⟩ := emit_eq_ok_iff.1 written
  rw [segments?_eq_ok good] at form
  cases form
  change bytes.length < fileLimit at short
  have arcs_small := numArcs_lt_of_emits stored emitted short
  obtain ⟨rows, holds, _⟩ := stored
  have file := undoes_read holds inside states_small arcs_small tables payload options name mode
  rw [List.append_assoc, List.append_assoc] at emitted
  have short_file : 0 + bytes.length < fileLimit := by
    rw [Nat.zero_add]
    exact short
  refine ⟨_, file 0 bytes emitted short_file, ?_⟩
  refine ⟨rfl, rfl, rfl, ?_, rfl, rfl, rfl, rfl, rfl, rfl, rfl⟩
  exact offsets?_lent c.store _

/-- What was written whole is read back whole. -/
theorem exists_read_of_write {c : Compact F} (obtained : c.Obtained) (good : c.error = none)
    (inside : StartsInside c.store.start c.store.numStates)
    (states_small : c.store.numStates ≤ 2147483647) (tables : TablesKept c.symbols)
    (payload : F.packing.readPayload.Undoes lends (F.packing.payloadSegments c.payload) c.payload)
    {options : WriteOptions} {sink : Sink}
    (written : c.write options Sink.unlimited = (.ok (), sink))
    (short : sink.received.length < fileLimit) (name : String) (mode : ReadMode) {source : Source}
    (ahead : source.Ahead lends 0 sink.received) :
    ∃ d after, read F name mode source = (.ok d, after)
      ∧ after.Ahead lends sink.received.length []
      ∧ c.Kept d (options.select c.symbols) (Store.borrows options.aligned mode lends) := by
  obtain ⟨d, yields, kept⟩ := exists_yields_of_write obtained.holds good inside states_small tables
    payload written short name mode
  have whole : source.Ahead lends 0 (sink.received ++ []) := by
    rw [List.append_nil]
    exact ahead
  obtain ⟨after, back, ahead_after⟩ := yields source [] whole
  rw [Nat.zero_add] at ahead_after
  exact ⟨d, after, back, ahead_after, kept⟩

end Compact

/-- Every file that is written is read back, whatever the machine has come from, the options, the
mode and the source: the machine that was written comes back from exactly the bytes of the file,
with the tables that were selected. Its elements are borrowed when the file is aligned, borrowing
is asked for and the source is a mapping. A file is written when its texts fit. States are numbered
by `StateId`, and no header with more states than it has numbers is accepted. -/
theorem read_of_write {F : Format} {c : Compact F} (obtained : c.Obtained) (good : c.error = none)
    (payload : (∃ k : Stock, F.packing = k.packing)
      ∨ ∀ lends, F.packing.readPayload.Undoes lends (F.packing.payloadSegments c.payload) c.payload)
    (inside : Compact.StartsInside c.store.start c.store.numStates)
    (states_small : c.store.numStates ≤ 2147483647) (tables : Compact.TablesKept c.symbols)
    (options : WriteOptions) :
    (TextFits F.typeName → (options.select c.symbols).TextsFit →
        (∀ segment ∈ F.packing.payloadSegments c.payload, segment.Writable) →
        ∃ sink, c.write options Sink.unlimited = (.ok (), sink))
      ∧ ∀ sink, c.write options Sink.unlimited = (.ok (), sink) →
        sink.received.length < fileLimit →
        ∀ name mode lends source, source.Ahead lends 0 sink.received →
          ∃ d after, Compact.read F name mode source = (.ok d, after)
            ∧ after.Ahead lends sink.received.length []
            ∧ c.Kept d (options.select c.symbols)
              (options.aligned && decide (mode = .borrow) && lends) := by
  constructor
  · intro typeName texts writable
    exact Compact.exists_write_eq_ok good typeName texts writable
  · intro sink written short name mode lends source ahead
    have payload_back : F.packing.readPayload.Undoes lends (F.packing.payloadSegments c.payload)
        c.payload := by
      rcases payload with stock | undoes
      · exact Compact.undoes_payload_of_stock stock c.payload
      · exact undoes lends
    exact Compact.exists_read_of_write obtained good inside states_small tables payload_back
      written short name mode ahead

/-- Symbols for the labels of a string. -/
def letters : SymbolTable :=
  (((SymbolTable.empty "letters").addWithKey "a" 1).2.addWithKey "b" 2).2

def plainStrings : Format := Stock.string.format .tropical .four

/-- The labels with symbols. -/
def letterLabels : List Label := [1, 2]

/-- The string of these labels, packed, with their symbols for its input. -/
def lettered : Compact plainStrings :=
  (Compact.ofElements (F := plainStrings) () letterLabels).setInputSymbols (some letters)

theorem tablesKept_letters : Compact.TablesKept ⟨some letters, none⟩ := by
  have reachable : letters.Reachable := .addWithKey (.addWithKey (.empty "letters") "a" 1) "b" 2
  have keys : letters.keys = [1, 2] := by rfl
  intro table member
  rcases member with here | nothing
  · cases here
    refine ⟨reachable, ?_, ?_⟩
    · rw [keys]
      decide
    · unfold SymbolTable.KeysBounded
      rw [keys, List.forall_mem_cons, List.forall_mem_singleton]
      exact ⟨by decide, by decide⟩
  · cases nothing

theorem textsFit_letters : SymbolPair.TextsFit ⟨some letters, none⟩ := by
  have entries : letters.entries = [("a", 1), ("b", 2)] := by rfl
  have name : TextFits letters.name := by decide
  constructor
  · intro table member
    cases member
    refine ⟨name, ?_⟩
    rw [entries]
    decide
  · intro table nothing
    cases nothing

theorem lettered_inside :
    Compact.StartsInside lettered.store.start lettered.store.numStates
      ∧ lettered.store.numStates ≤ 2147483647 := by
  have start : lettered.store.start = 0 := by rfl
  have numStates : lettered.store.numStates = 3 := by rfl
  rw [start, numStates]
  exact ⟨Or.inr (by decide), by decide⟩

theorem lettered_tables : Compact.TablesKept lettered.symbols
    ∧ WriteOptions.select ⟨true, true, true⟩ lettered.symbols = ⟨some letters, none⟩ := by
  have symbols : lettered.symbols = ⟨some letters, none⟩ := by rfl
  rw [symbols]
  exact ⟨tablesKept_letters, rfl⟩

/-- The file of the string is neither long nor empty. -/
theorem lettered_received :
    (lettered.write ⟨true, true, true⟩ Sink.unlimited).2.received.length < fileLimit
      ∧ (lettered.write ⟨true, true, true⟩ Sink.unlimited).2.received ≠ [] := by
  decide +kernel

theorem kept_lettered : ∃ sink d after,
    lettered.write ⟨true, true, true⟩ Sink.unlimited = (.ok (), sink)
      ∧ Compact.read plainStrings "lettered" .borrow (Source.ofMapping sink.received)
        = (.ok d, after)
      ∧ after.Ahead true sink.received.length []
      ∧ lettered.Kept d ⟨some letters, none⟩ true := by
  have packed : Compact.ofElements? (F := plainStrings) () letterLabels
      = .ok (Compact.ofElements (F := plainStrings) () letterLabels) := by
    rfl
  have obtained : lettered.Obtained := .inputSymbols (.gathered packed) (some letters)
  have good : lettered.error = none := by rfl
  obtain ⟨inside, small⟩ := lettered_inside
  obtain ⟨tables, selected⟩ := lettered_tables
  obtain ⟨short, _⟩ := lettered_received
  obtain ⟨written, back⟩ := read_of_write obtained good (Or.inl ⟨.string, rfl⟩) inside small tables
    ⟨true, true, true⟩
  rw [selected] at written back
  obtain ⟨sink, done⟩ := written (Stock.string.textFits_typeName .tropical .four) textsFit_letters
    (List.forall_mem_nil _)
  rw [done] at short
  obtain ⟨d, after, read, ahead, kept⟩ := back sink done short "lettered" .borrow true _
    (Source.ahead_ofMapping sink.received)
  exact ⟨sink, d, after, done, read, ahead, kept⟩

end Transducer
