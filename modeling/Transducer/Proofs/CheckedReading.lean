import Transducer.Proofs.Checked
import Transducer.Proofs.SourceIndependence
import Transducer.Proofs.SymbolKeys
/-!
# Reading with every step checked

The reading of a file again, with the room for bytes, the additions to the position, the parts taken
out of a mapping, the padding and the next available key written as checked steps. Main statement:
from a sound source whose bytes fit an array the checked reading comes to what reading comes to,
whatever the bytes are, unless the largest key is among those that the file gives to its symbols;
then it meets the trap of that key (`tracks_file`). One law, closed under sequences, carries this
through the parts of a file (`Tracks`); the parts without keys meet no trap at all (`Mirrors`).
-/
namespace Transducer

open Checked

/-- A reading whose steps are checked. -/
def CheckedReading (α : Type) := Source → Checked (Except Error α × Source)

namespace CheckedReading

variable {α β : Type}

protected def pure (a : α) : CheckedReading α := fun source => .ok (.ok a, source)

protected def bind (x : CheckedReading α) (f : α → CheckedReading β) : CheckedReading β :=
  fun source =>
    match x source with
    | .ok (.ok a, after) => f a after
    | .ok (.error cause, after) => .ok (.error cause, after)
    | .error trap => .error trap

instance : Monad CheckedReading where
  pure := CheckedReading.pure
  bind := CheckedReading.bind

/-- A reading that takes nothing and counts nothing. -/
def free (x : Reading α) : CheckedReading α := fun source => .ok (x source)

/-! ## Requests -/

/-- Takes the next `n` bytes. Room is made only for bytes that are there; the position must fit a
word, and a part of a mapping must lie inside it. -/
def take (n : Nat) : CheckedReading (List UInt8)
  | .stream reader position => do
    let (got, pending) := Delivery.fill n reader.pending
    let after : Reader := { reader with pending := pending }
    if got.length = n then
      let _ ← array n
      return (.ok got, .stream after (← word (position + n)))
    else match reader.failure with
      | some cause => return (.error cause, .stream after position)
      | none =>
        return (.error (.shortRead n got.length), .stream after (← word (position + got.length)))
  | .mapped bytes position => do
    let available := bytes.length - position
    if n ≤ available then
      let _ ← array n
      let stop ← word (position + n)
      return (.ok (← part bytes position stop), .mapped bytes stop)
    else
      return (.error (.shortRead n available), .mapped bytes (← word (position + available)))

def value (L : Layout α) : CheckedReading α := do
  return L.decode (← take L.size)

def text : CheckedReading String := do
  let length ← value Layout.int32
  free (Reading.require (0 ≤ length) (.badHeader (.negativeLength length)))
  match Text.ofUtf8? (← take length.toInt.toNat) with
  | some text => return text
  | none => free (Reading.fail (.badHeader .notText))

/-- How many bytes are missing to the next multiple of an alignment. -/
def missing (position alignment : Nat) : Checked Nat := do
  let past ← remainder position alignment
  if past = 0 then return 0 else minus alignment past

/-- Passes over a padding. -/
def align (alignment : Nat) : CheckedReading Unit := fun source => do
  let pad ← missing source.position alignment
  (do let _ ← take pad) source

/-! ## Arrays -/

def copy (L : Layout α) (length : Nat) : CheckedReading (Region α) := do
  let size ← free (Reading.lift (Region.byteLength L length))
  let bytes ← take size
  return Region.owned (L.decodeArray length bytes)

/-- Borrows an array from the part of a mapping that it takes up. -/
def borrow (L : Layout α) (length : Nat) (bytes : List UInt8) (position : Nat) :
    Checked (Except Error (Region α) × Source) :=
  match Region.byteLength L length with
  | .error cause => .ok (.error cause, .mapped bytes position)
  | .ok size =>
    let available := bytes.length - position
    if available < size then .ok (.error (.shortRead size available), .mapped bytes position)
    else do
      let stop ← word (position + size)
      let found ← part bytes position stop
      if position % L.alignment ≠ 0 then
        return (.error (.misaligned position L.alignment), .mapped bytes position)
      else return (.ok ⟨L.decodeArray length found, true⟩, .mapped bytes stop)

def region (L : Layout α) (length : Nat) (mode : ReadMode) : CheckedReading (Region α) :=
  fun source =>
    match mode, source with
    | .borrow, .mapped bytes position => borrow L length bytes position
    | _, source => copy L length source

/-! ## The parts of a file -/

def header (source : String) : CheckedReading Header := do
  let found ← value Layout.uint32
  free (Reading.require (found == Header.magic) (.badHeader (.magic source found)))
  let version ← value Layout.int32
  let flags ← value Layout.uint32
  let typeName ← text
  let arcName ← text
  let properties ← value Layout.uint64
  let start ← value Layout.int64
  let numStates ← value Layout.int64
  let numArcs ← value Layout.int64
  free (Reading.require (0 ≤ numStates && 0 ≤ numArcs)
    (.badHeader (.negativeCounts source numStates numArcs)))
  return ⟨typeName, arcName, version, flags, properties, start, numStates, numArcs⟩

/-- Puts an entry at the end of a table; above the largest key there is no next one. -/
def push (table : SymbolTable) (symbol : String) (key : Int64) : CheckedReading SymbolTable :=
  fun source =>
    if table.availableKey ≤ key ∧ 2 ^ 63 ≤ key.toInt + 1 then .error .lastKey
    else .ok (.ok (table.push symbol key), source)

def readEntries : Nat → SymbolTable → CheckedReading SymbolTable
  | 0, table => pure table
  | count + 1, table => do
    let symbol ← text
    let key ← value Layout.int64
    free (Reading.require ((table.findKey? symbol).isNone && (table.findSymbol? key).isNone)
      (.badSymbols (.duplicate symbol key)))
    readEntries count (← push table symbol key)

def symbolTable : CheckedReading SymbolTable := do
  let found ← value Layout.int32
  free (Reading.require (found == SymbolTable.magic) (.badSymbols (.magic found)))
  let name ← text
  let available ← value Layout.int64
  let count ← value Layout.int64
  free (Reading.require (0 ≤ count) (.badSymbols (.negativeCount count)))
  let table ← readEntries count.toInt.toNat (SymbolTable.empty name)
  return { table with availableKey := max table.availableKey available }

def symbolTable? (there : Bool) : CheckedReading (Option SymbolTable) :=
  if there then do return some (← symbolTable) else pure none

def symbolPair (h : Header) : CheckedReading SymbolPair := do
  let input ← symbolTable? h.hasInputSymbols
  let output ← symbolTable? h.hasOutputSymbols
  return ⟨input, output⟩

/-- What is asked of a header once it is read, which takes nothing more. -/
def acceptHeader (F : Format) (source : String) (found : Header) : Reading Header := do
  Reading.require (oldestVersion ≤ found.version)
    (.badHeader (.version source found.version oldestVersion))
  let header : Header :=
    if found.version = alignedVersion ∧ !found.isAligned then
      { found with flags := found.flags ||| Header.alignedFlag }
    else found
  Reading.require (header.typeName == F.typeName)
    (.badHeader (.typeName source header.typeName F.typeName))
  Reading.require (header.arcName == F.algebra.arcName)
    (.badHeader (.arcName source header.arcName F.algebra.arcName))
  let inside := 0 ≤ header.start && header.start < header.numStates
  Reading.require
    (header.numStates ≤ 2147483647 && (header.start == noState.toInt64 || inside))
    (.badHeader (.start source header.start header.numStates))
  return header

def fileHeader (F : Format) (source : String) : CheckedReading Header := do
  let found ← header source
  free (acceptHeader F source found)

def pad (aligned : Bool) : CheckedReading Unit :=
  if aligned then align fileAlignment else pure ()

def addressing (P : Packing) (w : OffsetWidth) (aligned : Bool) (numStates : Nat)
    (mode : ReadMode) : CheckedReading (Addressing w × Nat) :=
  match P.arity with
  | .indexed => do
    pad aligned
    let offsets ← region (Offset.layout w) (numStates + 1) mode
    free (Reading.lift (Store.checkOffsets offsets.values))
    pad aligned
    let last := match offsets.values.getLast? with
      | some last => last.val
      | none => 0
    return (.indexed offsets, last)
  | .fixed k => do
    pad aligned
    free (Reading.require (k * numStates < Region.byteLimit)
      (.badHeader (.groupCount numStates k)))
    return (.grouped k, k * numStates)

def store (P : Packing) (w : OffsetWidth) (header : Header) (mode : ReadMode) :
    CheckedReading (Store P w) := do
  free (Reading.require (0 ≤ header.numStates) (.badHeader (.stateCount header.numStates.toInt)))
  free (Reading.require (0 ≤ header.numArcs) (.badHeader (.arcCount header.numArcs.toInt)))
  let numStates := header.numStates.toInt.toNat
  let (way, numElements) ← addressing P w header.isAligned numStates mode
  let elements ← region P.layout numElements mode
  return {
    addressing := way
    elements := elements
    start := header.start.toInt32
    numStates := numStates
    numArcs := header.numArcs.toInt.toNat }

/-- Reads a machine of a stock packing, which has no payload in files. -/
def file (k : Stock) (algebra : Algebra) (width : OffsetWidth) (source : String)
    (mode : ReadMode) : CheckedReading (Compact (k.format algebra width)) := do
  let header ← fileHeader (k.format algebra width) source
  let symbols ← symbolPair header
  let payload ← free k.packing.readPayload
  let store ← store k.packing width header (if header.isAligned then mode else .copy)
  return Compact.assemble (F := k.format algebra width) payload store header.properties symbols

/-! ## The same outcome -/

/-- From a sound source whose bytes fit an array the checked reading comes to what the reading
comes to, unless the largest key is among those that are met, where it traps; the reading goes forth
only, so that the positions go on fitting. -/
structure Tracks (keys : Source → List Int64) (c : CheckedReading α) (x : Reading α) : Prop where
  follows : ∀ source : Source, source.Sound → source.Follows (x source).2
  outcome : ∀ source : Source, source.Sound → source.position + source.left < arrayLimit →
    c source = if Int64.maxValue ∈ keys source then .error .lastKey else .ok (x source)

/-- The keys met in what holds none. -/
def noKeys : Source → List Int64 := fun _ => []

/-- A checked reading of what holds no keys, which comes to what the reading comes to. -/
def Mirrors (c : CheckedReading α) (x : Reading α) : Prop := Tracks noKeys c x

theorem mirrors_of_same {c : CheckedReading α} {x : Reading α}
    (follows : ∀ source : Source, source.Sound → source.Follows (x source).2)
    (same : ∀ source : Source, source.Sound → source.position + source.left < arrayLimit →
      c source = .ok (x source)) : Mirrors c x := by
  refine ⟨follows, ?_⟩
  intro source sound small
  exact (same source sound small).trans (if_neg List.not_mem_nil).symm

theorem Mirrors.same {c : CheckedReading α} {x : Reading α} (mirrors : Mirrors c x)
    {source : Source} (sound : source.Sound)
    (small : source.position + source.left < arrayLimit) : c source = .ok (x source) :=
  (mirrors.outcome source sound small).trans (if_neg List.not_mem_nil)

theorem mirrors_of_plain {c : CheckedReading α} {x : Reading α} (plain : x.Plain)
    (same : ∀ source : Source, source.Sound → source.position + source.left < arrayLimit →
      c source = .ok (x source)) : Mirrors c x :=
  mirrors_of_same (fun source sound => (plain.orderly source sound).follows) same

theorem mirrors_free {x : Reading α} (plain : x.Plain) : Mirrors (free x) x :=
  mirrors_of_plain plain fun _ _ _ => rfl

theorem mirrors_pure (a : α) : Mirrors (pure a) (pure a : Reading α) := mirrors_free (.pure a)

section

variable {keys : Source → List Int64} {more : α → Source → List Int64} {c : CheckedReading α}
  {x : Reading α} {d : α → CheckedReading β} {f : α → Reading β}

theorem Tracks.bind (first : Tracks keys c x) (second : ∀ a, Tracks (more a) (d a) (f a)) :
    Tracks (fun source => keys source ++ x.thenKeys more source) (c >>= d) (x >>= f) := by
  constructor
  · intro source sound
    change source.Follows (Reading.bind x f source).2
    unfold Reading.bind
    have follows := first.follows source sound
    cases read : x source with
    | mk outcome after =>
      rw [read] at follows
      cases outcome with
      | error cause => exact follows
      | ok a => exact follows.trans ((second a).follows after follows.sound)
  · intro source sound small
    change CheckedReading.bind c d source = if _ then _ else .ok (Reading.bind x f source)
    unfold CheckedReading.bind Reading.bind Reading.thenKeys
    rw [first.outcome source sound small]
    by_cases last : Int64.maxValue ∈ keys source
    · rw [if_pos last, if_pos (List.mem_append_left _ last)]
    · simp only [List.mem_append, last, false_or]
      have follows := first.follows source sound
      cases read : x source with
      | mk outcome after =>
        rw [read] at follows
        cases outcome with
        | error cause => exact (if_neg List.not_mem_nil).symm
        | ok a =>
          exact (second a).outcome after follows.sound (Nat.lt_of_le_of_lt follows.within small)

/-- Behind a part without keys. -/
theorem Mirrors.bind_tracks (first : Mirrors c x)
    (second : ∀ a, Tracks (more a) (d a) (f a)) :
    Tracks (x.thenKeys more) (c >>= d) (x >>= f) := Tracks.bind first second

/-- In front of a part without keys. -/
theorem Tracks.bind_mirrors (first : Tracks keys c x) (second : ∀ a, Mirrors (d a) (f a)) :
    Tracks keys (c >>= d) (x >>= f) := by
  have none_behind (source : Source) : x.thenKeys (fun _ => noKeys) source = [] := by
    unfold Reading.thenKeys
    split <;> rfl
  have both := first.bind second
  simp only [none_behind, List.append_nil] at both
  exact both

theorem Mirrors.bind (first : Mirrors c x) (second : ∀ a, Mirrors (d a) (f a)) :
    Mirrors (c >>= d) (x >>= f) := Tracks.bind_mirrors first second

end

theorem mirrors_take (n : Nat) : Mirrors (take n) (Reading.take n) := by
  refine mirrors_of_plain (.take n) ?_
  intro source sound small
  have words := arrayLimit_lt_wordLimit
  cases source with
  | stream reader position =>
    have got : (Delivery.fill n reader.pending).1.length
        = min n (Delivery.content reader.pending).length := by
      rw [Delivery.fill_fst, List.length_take]
    simp only [Source.position, Source.left] at small
    unfold take Reading.take
    simp only
    by_cases enough : (Delivery.fill n reader.pending).1.length = n
    · rw [if_pos enough, if_pos enough, array_of_lt (by omega), ok_bind, word_of_lt (by omega)]
      rfl
    · rw [if_neg enough, if_neg enough]
      cases reader.failure with
      | some cause => rfl
      | none =>
        simp only
        rw [word_of_lt (by omega)]
        rfl
  | mapped bytes position =>
    have inside : position ≤ bytes.length := sound
    simp only [Source.position, Source.left] at small
    unfold take Reading.take
    simp only
    by_cases enough : n ≤ bytes.length - position
    · rw [if_pos enough, if_pos enough, array_of_lt (by omega), ok_bind, word_of_lt (by omega),
        ok_bind, part_of_le (Nat.le_add_right _ _) (by omega), Nat.add_sub_cancel_left]
      rfl
    · rw [if_neg enough, if_neg enough, word_of_lt (by omega)]
      rfl

theorem mirrors_value (L : Layout α) : Mirrors (value L) (Reading.value L) :=
  (mirrors_take L.size).bind fun bytes => mirrors_pure (L.decode bytes)

theorem mirrors_require (condition : Bool) {cause : Error} (proper : cause.isMishap = false) :
    Mirrors (free (Reading.require condition cause)) (Reading.require condition cause) :=
  mirrors_free (Reading.plain_require condition proper)

theorem mirrors_text : Mirrors text Reading.text := by
  unfold text Reading.text
  apply (mirrors_value _).bind
  intro length
  apply (mirrors_require _ rfl).bind
  intro _
  apply (mirrors_take _).bind
  intro bytes
  cases Text.ofUtf8? bytes with
  | some s => exact mirrors_pure s
  | none => exact mirrors_free (.refuse rfl)

theorem missing_of_pos (position : Nat) {alignment : Nat} (positive : 0 < alignment) :
    missing position alignment = .ok (padding position alignment) := by
  have below : position % alignment ≤ alignment := Nat.le_of_lt (Nat.mod_lt _ positive)
  unfold missing padding
  rw [remainder_of_pos positive, ok_bind]
  split
  · rfl
  · exact minus_of_le below

theorem mirrors_align {alignment : Nat} (positive : 0 < alignment) :
    Mirrors (align alignment) (Reading.align alignment) := by
  refine mirrors_of_plain (.align positive) ?_
  intro source sound small
  have way : paddingTo source.position alignment = .ok (padding source.position alignment) :=
    if_neg (Nat.ne_of_gt positive)
  simp only [align, Reading.align, way, missing_of_pos _ positive, ok_bind]
  exact ((mirrors_take _).bind fun _ => mirrors_pure ()).same sound small

/-! ## Arrays -/

theorem mirrors_copy (L : Layout α) (length : Nat) :
    Mirrors (copy L length) (Reading.copy L length) := by
  apply (mirrors_free (Reading.plain_byteLength L length)).bind
  intro size
  exact (mirrors_take size).bind fun bytes => mirrors_pure _

/-- The part of a mapping that an array takes up lies inside it. -/
theorem borrow_eq (L : Layout α) (length : Nat) {bytes : List UInt8} {position : Nat}
    (inside : position ≤ bytes.length) (small : bytes.length < arrayLimit) :
    borrow L length bytes position = .ok (Reading.borrow L length bytes position) := by
  have words := arrayLimit_lt_wordLimit
  unfold borrow Reading.borrow Region.borrow
  cases counted : Region.byteLength L length with
  | error cause => rfl
  | ok size =>
    obtain rfl := Reading.eq_of_byteLength counted
    simp only [bind, Except.bind]
    by_cases enough : bytes.length - position < length * L.size
    · rw [if_pos enough, if_pos enough]
      rfl
    · rw [if_neg enough, if_neg enough, word_of_lt (by omega)]
      simp only
      rw [part_of_le (Nat.le_add_right _ _) (by omega), Nat.add_sub_cancel_left,
        if_neg (Nat.not_lt.2 inside)]
      by_cases aligned : position % L.alignment ≠ 0
      · simp only [if_pos aligned]
        rfl
      · simp only [if_neg aligned, L.decodeArray_take]
        rfl

theorem mirrors_region (L : Layout α) (length : Nat) (mode : ReadMode) :
    Mirrors (region L length mode) (Reading.region L length mode) := by
  refine mirrors_of_same (fun source sound => Reading.follows_region L length mode sound) ?_
  intro source sound small
  cases mode with
  | copy => exact (mirrors_copy L length).same sound small
  | borrow =>
    cases source with
    | stream reader position => exact (mirrors_copy L length).same sound small
    | mapped bytes position =>
      have inside : position ≤ bytes.length := sound
      simp only [Source.position, Source.left] at small
      exact borrow_eq L length inside (by omega)

/-! ## The parts of a file -/

theorem mirrors_header (source : String) : Mirrors (header source) (Header.read source) := by
  unfold header Header.read
  apply (mirrors_value _).bind
  intro found
  apply (mirrors_require _ rfl).bind
  intro _
  apply (mirrors_value _).bind
  intro version
  apply (mirrors_value _).bind
  intro flags
  apply mirrors_text.bind
  intro typeName
  apply mirrors_text.bind
  intro arcName
  apply (mirrors_value _).bind
  intro properties
  apply (mirrors_value _).bind
  intro start
  apply (mirrors_value _).bind
  intro numStates
  apply (mirrors_value _).bind
  intro numArcs
  exact (mirrors_require _ rfl).bind fun _ => mirrors_pure _

/-- Of the keys that are not below the available one, the largest alone has none above it. -/
theorem full_iff {available key : Int64} :
    available ≤ key ∧ 2 ^ 63 ≤ key.toInt + 1 ↔ key = Int64.maxValue := by
  have top : Int64.maxValue.toInt = 2 ^ 63 - 1 := by decide
  have below := key.toInt_lt
  constructor
  · rintro ⟨_, full⟩
    apply Int64.toInt_inj.1
    omega
  · rintro rfl
    have room := available.toInt_lt
    refine ⟨?_, by omega⟩
    rw [Int64.le_iff_toInt_le]
    omega

/-- The only step that may trap, and when it does. -/
theorem push_eq (table : SymbolTable) (symbol : String) (key : Int64) (source : Source) :
    push table symbol key source = if key = Int64.maxValue then .error .lastKey
      else .ok (.ok (table.push symbol key), source) := by
  unfold push
  simp only [full_iff]

theorem tracks_push (table : SymbolTable) (symbol : String) (key : Int64) :
    Tracks (fun _ => [key]) (push table symbol key) (pure (table.push symbol key)) := by
  refine ⟨fun source sound => sound.follows, ?_⟩
  intro source _ _
  rw [push_eq]
  simp only [List.mem_singleton, eq_comm (a := key)]
  rfl

theorem tracks_readEntries (count : Nat) (table : SymbolTable) :
    Tracks (SymbolTable.keysMetInEntries count table) (readEntries count table)
      (SymbolTable.readEntries count table) := by
  induction count generalizing table with
  | zero => exact mirrors_pure table
  | succ count ih =>
    unfold readEntries SymbolTable.readEntries SymbolTable.keysMetInEntries
    apply mirrors_text.bind_tracks
    intro symbol
    apply (mirrors_value _).bind_tracks
    intro key
    apply (mirrors_require _ rfl).bind_tracks
    intro _
    rw [← pure_bind (table.push symbol key) (SymbolTable.readEntries count)]
    exact (tracks_push table symbol key).bind ih

theorem tracks_symbolTable : Tracks SymbolTable.keysMet symbolTable SymbolTable.read := by
  unfold symbolTable SymbolTable.read SymbolTable.keysMet
  apply (mirrors_value _).bind_tracks
  intro found
  apply (mirrors_require _ rfl).bind_tracks
  intro _
  apply mirrors_text.bind_tracks
  intro name
  apply (mirrors_value _).bind_tracks
  intro available
  apply (mirrors_value _).bind_tracks
  intro count
  apply (mirrors_require _ rfl).bind_tracks
  intro _
  exact (tracks_readEntries _ _).bind_mirrors fun table => mirrors_pure _

/-- A table of one symbol, under the largest key. -/
example : symbolTable (Source.ofMapping (Writer.bytesFrom 0
    (SymbolTable.segments ⟨"last", [("z", Int64.maxValue)], 0⟩))) = .error .lastKey := by
  cbv

theorem tracks_symbolPair (h : Header) :
    Tracks (SymbolPair.keysMet h) (symbolPair h) (SymbolPair.read h) := by
  have one (there : Bool) : Tracks (SymbolPair.keysMetInOne there) (symbolTable? there)
      (SymbolPair.readOne there) := by
    cases there with
    | false => exact mirrors_pure _
    | true => exact tracks_symbolTable.bind_mirrors fun table => mirrors_pure _
  exact (one _).bind fun input => (one _).bind_mirrors fun output => mirrors_pure _

theorem mirrors_fileHeader (F : Format) (source : String) :
    Mirrors (fileHeader F source) (Compact.readHeader F source) := by
  have accepts (found : Header) : (acceptHeader F source found).Plain := by
    unfold acceptHeader
    apply (Reading.plain_require _ rfl).bind
    intro _
    apply (Reading.plain_require _ rfl).bind
    intro _
    apply (Reading.plain_require _ rfl).bind
    intro _
    exact (Reading.plain_require _ rfl).bind fun _ => .pure _
  exact (mirrors_header source).bind fun found => mirrors_free (accepts found)

theorem mirrors_pad (aligned : Bool) : Mirrors (pad aligned) (Store.readPad aligned) := by
  cases aligned with
  | false => exact mirrors_pure ()
  | true => exact mirrors_align (by decide)

theorem mirrors_addressing (P : Packing) (w : OffsetWidth) (aligned : Bool) (numStates : Nat)
    (mode : ReadMode) : Mirrors (addressing P w aligned numStates mode)
      (Store.readAddressing P w aligned numStates mode) := by
  unfold addressing Store.readAddressing
  cases P.arity with
  | indexed =>
    apply (mirrors_pad aligned).bind
    intro _
    apply (mirrors_region _ _ _).bind
    intro offsets
    apply (mirrors_free (Reading.plain_lift fun _ => Store.checkOffsets_proper)).bind
    intro _
    exact (mirrors_pad aligned).bind fun _ => mirrors_pure _
  | fixed k =>
    apply (mirrors_pad aligned).bind
    intro _
    exact (mirrors_require _ rfl).bind fun _ => mirrors_pure _

theorem mirrors_store (P : Packing) (w : OffsetWidth) (header : Header) (mode : ReadMode) :
    Mirrors (store P w header mode) (Store.read P w header mode) := by
  unfold store Store.read
  apply (mirrors_require _ rfl).bind
  intro _
  apply (mirrors_require _ rfl).bind
  intro _
  apply (mirrors_addressing _ _ _ _ _).bind
  intro way
  exact (mirrors_region _ _ _).bind fun elements => mirrors_pure _

/-- Whatever the bytes are, reading them stays in bounds and does not overflow, unless they hold a
symbol under the largest key. -/
theorem tracks_file (k : Stock) (algebra : Algebra) (width : OffsetWidth) (source : String)
    (mode : ReadMode) : Tracks (Compact.keysMet (k.format algebra width) source)
      (file k algebra width source mode) (Compact.read (k.format algebra width) source mode) := by
  unfold file Compact.read
  apply (mirrors_fileHeader _ source).bind_tracks
  intro header
  apply (tracks_symbolPair header).bind_mirrors
  intro symbols
  apply (mirrors_free k.plain_readPayload).bind
  intro payload
  exact (mirrors_store k.packing width header _).bind fun store => mirrors_pure _

end CheckedReading
end Transducer
