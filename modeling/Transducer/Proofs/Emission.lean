import Transducer.Compact.File
/-!
# What is written

The bytes that a list of segments gives, as a relation between a position, the segments and the
bytes. The position matters to paddings only. A sink that takes everything receives exactly the
bytes of the relation (`writeAll_eq_ok_iff`), and nothing keeps segments from being written but a
refusal among them (`exists_emits_iff`). Lists that give the same bytes from everywhere can
replace each other at the end of a file, whatever happens before (`writeAll_congr`).
-/
namespace Transducer

namespace Segment

/-- Writing the segments from a position gives the bytes. -/
inductive Emits : Nat → List Segment → List UInt8 → Prop where
  | nil (position : Nat) : Emits position [] []
  | raw {position : Nat} {bytes : List UInt8} {rest : List Segment} {out : List UInt8}
      (later : Emits (position + bytes.length) rest out) :
      Emits position (.raw bytes :: rest) (bytes ++ out)
  | aligned {position alignment : Nat} {rest : List Segment} {out : List UInt8}
      (positive : 0 < alignment) (later : Emits (position + padding position alignment) rest out) :
      Emits position (.aligned alignment :: rest)
        (List.replicate (padding position alignment) 0 ++ out)

/-- A segment that an unlimited sink takes. -/
def Writable : Segment → Prop
  | raw _ => True
  | aligned alignment => 0 < alignment
  | refused _ => False

/-- A text with the number of its bytes in front. -/
def framed (s : String) : List UInt8 :=
  Layout.int32.encode (Int32.ofNat (Text.utf8 s).length) ++ Text.utf8 s

variable {position : Nat} {xs ys segments : List Segment} {bytes more out : List UInt8}

theorem Emits.append (first : Emits position xs bytes)
    (second : Emits (position + bytes.length) ys more) :
    Emits position (xs ++ ys) (bytes ++ more) := by
  induction first with
  | nil position => exact second
  | raw later ih =>
    rw [List.length_append, ← Nat.add_assoc] at second
    rw [List.append_assoc]
    exact .raw (ih second)
  | aligned positive later ih =>
    rw [List.length_append, List.length_replicate, ← Nat.add_assoc] at second
    rw [List.append_assoc]
    exact .aligned positive (ih second)

/-- What two lists of segments give, apart. -/
theorem Emits.split (h : Emits position (xs ++ ys) out) :
    ∃ bytes more, out = bytes ++ more ∧ Emits position xs bytes
      ∧ Emits (position + bytes.length) ys more := by
  induction xs generalizing position out with
  | nil => exact ⟨[], out, rfl, .nil position, h⟩
  | cons segment rest ih =>
    cases h with
    | raw later =>
      obtain ⟨bytes, more, rfl, first, second⟩ := ih later
      refine ⟨_, more, (List.append_assoc _ _ _).symm, .raw first, ?_⟩
      rwa [List.length_append, ← Nat.add_assoc]
    | aligned positive later =>
      obtain ⟨bytes, more, rfl, first, second⟩ := ih later
      refine ⟨_, more, (List.append_assoc _ _ _).symm, .aligned positive first, ?_⟩
      rwa [List.length_append, List.length_replicate, ← Nat.add_assoc]

theorem Emits.unique (h : Emits position xs bytes) (h' : Emits position xs more) :
    bytes = more := by
  induction h generalizing more with
  | nil => cases h'; rfl
  | raw later ih =>
    cases h' with
    | raw later' => rw [ih later']
  | aligned positive later ih =>
    cases h' with
    | aligned _ later' => rw [ih later']

/-- Without paddings, the bytes do not depend on where they stand. -/
theorem Emits.elsewhere (emitted : Emits position segments bytes)
    (unpadded : ∀ alignment, .aligned alignment ∉ segments) (other : Nat) :
    Emits other segments bytes := by
  induction emitted generalizing other with
  | nil position => exact .nil other
  | raw later ih =>
    exact .raw (ih (fun alignment member => unpadded alignment (List.mem_cons_of_mem _ member)) _)
  | aligned positive later ih => exact absurd List.mem_cons_self (unpadded _)

theorem emits_nil_iff : Emits position [] out ↔ out = [] := by
  constructor
  · intro h
    cases h
    rfl
  · rintro rfl
    exact .nil position

theorem emits_raw_iff : Emits position [.raw bytes] out ↔ out = bytes := by
  constructor
  · intro h
    cases h with
    | raw later =>
      cases later
      exact List.append_nil bytes
  · rintro rfl
    have h := Emits.raw (.nil (position + out.length))
    rwa [List.append_nil] at h

theorem emits_value_iff {α : Type} {L : Layout α} {a : α} :
    Emits position [.value L a] out ↔ out = L.encode a :=
  emits_raw_iff

theorem emits_array_iff {α : Type} {L : Layout α} {values : List α} :
    Emits position [.array L values] out ↔ out = L.encodeArray values :=
  emits_raw_iff

/-- Values one by one give the bytes of their array. -/
theorem emits_values {α : Type} (L : Layout α) (values : List α) (position : Nat) :
    Emits position (values.map (.value L)) (L.encodeArray values) := by
  induction values generalizing position with
  | nil => exact .nil position
  | cons a values ih => exact .raw (ih _)

/-- A text is written when the number of its bytes fits a signed word. -/
theorem emits_text_iff {s : String} :
    Emits position (text s) out ↔ (Text.utf8 s).length < 0x80000000 ∧ out = framed s := by
  unfold text
  by_cases fits : (Text.utf8 s).length < 0x80000000
  · have both : Emits position ([.value Layout.int32 (Int32.ofNat (Text.utf8 s).length)]
        ++ [.raw (Text.utf8 s)]) (framed s) :=
      (emits_value_iff.2 rfl).append (emits_raw_iff.2 rfl)
    rw [List.cons_append, List.nil_append] at both
    simp only [fits, if_true, true_and]
    constructor
    · intro h
      exact h.unique both
    · rintro rfl
      exact both
  · simp only [fits, if_false, false_and, iff_false]
    intro h
    cases h

/-- Nothing but a refusal, or an alignment to zero, keeps segments from being written. -/
theorem exists_emits_iff (position : Nat) :
    (∃ out, Emits position segments out) ↔ ∀ segment ∈ segments, segment.Writable := by
  induction segments generalizing position with
  | nil =>
    constructor
    · intro _ _ member
      cases member
    · intro _
      exact ⟨[], .nil position⟩
  | cons segment rest ih =>
    rw [List.forall_mem_cons]
    constructor
    · rintro ⟨out, h⟩
      cases h with
      | raw later => exact ⟨trivial, (ih _).1 ⟨_, later⟩⟩
      | aligned positive later => exact ⟨positive, (ih _).1 ⟨_, later⟩⟩
    · rintro ⟨first, later⟩
      cases segment with
      | raw bytes =>
        obtain ⟨out, h⟩ := (ih (position + bytes.length)).2 later
        exact ⟨_, .raw h⟩
      | aligned alignment =>
        obtain ⟨out, h⟩ := (ih (position + padding position alignment)).2 later
        exact ⟨_, .aligned first h⟩
      | refused cause => exact absurd first id

theorem writable_value {α : Type} (L : Layout α) (a : α) : (value L a).Writable := trivial

theorem writable_array {α : Type} (L : Layout α) (values : List α) : (array L values).Writable :=
  trivial

/-- A text is taken when the number of its bytes fits a signed word, and only then. -/
theorem writable_text_iff {s : String} :
    (∀ segment ∈ text s, segment.Writable) ↔ (Text.utf8 s).length < 0x80000000 := by
  rw [← exists_emits_iff 0]
  constructor
  · rintro ⟨out, emitted⟩
    exact (emits_text_iff.1 emitted).1
  · intro fits
    exact ⟨framed s, emits_text_iff.2 ⟨fits, rfl⟩⟩

end Segment

namespace Writer

open Segment

variable {w after : Writer} {xs ys segments : List Segment} {bytes : List UInt8}

/-- A writer after some more bytes. -/
def pushed (w : Writer) (bytes : List UInt8) : Writer :=
  ⟨{ w.sink with received := w.sink.received ++ bytes }, w.position + bytes.length⟩

@[simp] theorem room_pushed (w : Writer) (bytes : List UInt8) :
    (w.pushed bytes).sink.room = w.sink.room := rfl

@[simp] theorem position_pushed (w : Writer) (bytes : List UInt8) :
    (w.pushed bytes).position = w.position + bytes.length := rfl

theorem pushed_pushed (w : Writer) (bytes more : List UInt8) :
    (w.pushed bytes).pushed more = w.pushed (bytes ++ more) := by
  simp [pushed, Nat.add_assoc]

theorem write_raw_of_unlimited (unlimited : w.sink.room = none) (bytes : List UInt8) :
    w.write (.raw bytes) = (.ok (), w.pushed bytes) := by
  simp [write, writeRaw, Sink.take, unlimited, pushed]

theorem write_aligned_of_unlimited (unlimited : w.sink.room = none) {alignment : Nat}
    (positive : 0 < alignment) :
    w.write (.aligned alignment)
      = (.ok (), w.pushed (List.replicate (padding w.position alignment) 0)) := by
  have pad : paddingTo w.position alignment = .ok (padding w.position alignment) :=
    if_neg (Nat.ne_of_gt positive)
  unfold write
  simp only [pad]
  exact write_raw_of_unlimited unlimited _

theorem writeAll_of_emits (h : Emits w.position segments bytes) (unlimited : w.sink.room = none) :
    w.writeAll segments = (.ok (), w.pushed bytes) := by
  generalize start : w.position = position at h
  induction h generalizing w with
  | nil position => simp [writeAll, pushed]
  | raw later ih =>
    unfold writeAll
    rw [write_raw_of_unlimited unlimited, ← pushed_pushed]
    exact ih (w := w.pushed _) unlimited (by rw [position_pushed, start])
  | aligned positive later ih =>
    unfold writeAll
    rw [write_aligned_of_unlimited unlimited positive, ← pushed_pushed, start]
    exact ih (w := w.pushed _) unlimited (by rw [position_pushed, start, List.length_replicate])

/-- A refusal stops a writer, so what has been written was all written. -/
theorem writable_of_writeAll (unlimited : w.sink.room = none)
    (h : w.writeAll segments = (.ok (), after)) : ∀ segment ∈ segments, segment.Writable := by
  induction segments generalizing w with
  | nil => exact fun _ member => nomatch member
  | cons segment rest ih =>
    rw [List.forall_mem_cons]
    unfold writeAll at h
    cases segment with
    | raw bytes =>
      rw [write_raw_of_unlimited unlimited] at h
      exact ⟨trivial, ih (w := w.pushed bytes) unlimited h⟩
    | aligned alignment =>
      rcases Nat.eq_zero_or_pos alignment with rfl | positive
      · cases h
      · rw [write_aligned_of_unlimited unlimited positive] at h
        exact ⟨positive, ih (w := w.pushed _) unlimited h⟩
    | refused cause => cases h

/-- A sink that takes everything receives the bytes of the segments, if they can be written. -/
theorem writeAll_eq_ok_iff (unlimited : w.sink.room = none) :
    w.writeAll segments = (.ok (), after)
      ↔ ∃ bytes, Emits w.position segments bytes ∧ after = w.pushed bytes := by
  constructor
  · intro h
    obtain ⟨bytes, emitted⟩ := (exists_emits_iff w.position).2 (writable_of_writeAll unlimited h)
    rw [writeAll_of_emits emitted unlimited] at h
    cases h
    exact ⟨bytes, emitted, rfl⟩
  · rintro ⟨bytes, emitted, rfl⟩
    exact writeAll_of_emits emitted unlimited

theorem writeAll_append : w.writeAll (xs ++ ys)
    = match w.writeAll xs with
      | (.ok _, middle) => middle.writeAll ys
      | (.error cause, middle) => (.error cause, middle) := by
  induction xs generalizing w with
  | nil => rfl
  | cons segment rest ih =>
    rw [List.cons_append, writeAll, writeAll]
    cases w.write segment with
    | mk outcome middle =>
      cases outcome with
      | ok u => exact ih
      | error cause => rfl

/-- Lists of segments that give the same bytes from everywhere do so behind any others. -/
theorem writeAll_congr (unlimited : w.sink.room = none)
    (same : ∀ position, ∃ bytes, Emits position xs bytes ∧ Emits position ys bytes)
    (before : List Segment) : w.writeAll (before ++ xs) = w.writeAll (before ++ ys) := by
  rw [writeAll_append, writeAll_append]
  cases written : w.writeAll before with
  | mk outcome middle =>
    cases outcome with
    | error cause => rfl
    | ok u =>
      obtain ⟨bytes, _, rfl⟩ := (writeAll_eq_ok_iff unlimited).1 written
      obtain ⟨out, first, second⟩ := same (w.pushed bytes).position
      have room : (w.pushed bytes).sink.room = none := unlimited
      change (w.pushed bytes).writeAll xs = (w.pushed bytes).writeAll ys
      rw [writeAll_of_emits first room, writeAll_of_emits second room]

/-- A sink keeps what it has received. -/
theorem received_write (w : Writer) (segment : Segment) :
    ∃ more, (w.write segment).2.sink.received = w.sink.received ++ more := by
  have raw (bytes : List UInt8) :
      ∃ more, (w.writeRaw bytes).2.sink.received = w.sink.received ++ more := by
    unfold writeRaw Sink.take
    cases w.sink.room with
    | none => exact ⟨bytes, rfl⟩
    | some room =>
      by_cases fits : bytes.length ≤ room
      · exact ⟨bytes.take room, by simp [fits]⟩
      · exact ⟨bytes.take room, by simp [fits]⟩
  unfold write
  split
  · exact raw _
  · split
    · exact raw _
    · exact ⟨[], (List.append_nil _).symm⟩
  · exact ⟨[], (List.append_nil _).symm⟩

theorem received_writeAll (w : Writer) (segments : List Segment) :
    ∃ more, (w.writeAll segments).2.sink.received = w.sink.received ++ more := by
  induction segments generalizing w with
  | nil => exact ⟨[], (List.append_nil _).symm⟩
  | cons segment rest ih =>
    obtain ⟨first, received⟩ := received_write w segment
    unfold writeAll
    cases written : w.write segment with
    | mk outcome after =>
      rw [written] at received
      cases outcome with
      | error cause => exact ⟨first, received⟩
      | ok u =>
        obtain ⟨more, later⟩ := ih after
        refine ⟨first ++ more, ?_⟩
        rw [← List.append_assoc, ← received]
        exact later

theorem sink_writeFlushed (w : Writer) (segments : List Segment) :
    (w.writeFlushed segments).2 = (w.writeAll segments).2 := by
  unfold writeFlushed
  cases w.writeAll segments with
  | mk outcome after => cases outcome <;> rfl

end Writer

namespace Compact

open Segment

variable {xs ys segments : List Segment} {sink : Sink}

theorem emit_ok (segments : List Segment) (sink : Sink) :
    emit (.ok segments) sink = (((Writer.mk sink 0).writeFlushed segments).1,
      ((Writer.mk sink 0).writeFlushed segments).2.sink) := rfl

/-- What an unlimited sink receives of a file. -/
theorem emit_eq_ok_iff {form : Except Error (List Segment)} :
    emit form Sink.unlimited = (.ok (), sink)
      ↔ ∃ segments bytes, form = .ok segments ∧ Emits 0 segments bytes
        ∧ sink = { Sink.unlimited with received := bytes } := by
  cases form with
  | error cause => simp [emit]
  | ok segments =>
    constructor
    · intro h
      unfold emit Writer.writeFlushed at h
      cases written : (Writer.mk Sink.unlimited 0).writeAll segments with
      | mk outcome after =>
        cases outcome with
        | error cause =>
          simp only [written] at h
          cases h
        | ok u =>
          obtain ⟨bytes, emitted, rfl⟩ := (Writer.writeAll_eq_ok_iff rfl).1 written
          simp only [written] at h
          cases h
          exact ⟨segments, bytes, rfl, emitted, rfl⟩
    · rintro ⟨_, bytes, same, emitted, rfl⟩
      cases same
      rw [emit_ok, Writer.writeFlushed, Writer.writeAll_of_emits emitted rfl]
      rfl

/-- An unlimited sink takes a file when nothing in it is refused. -/
theorem emit_unlimited_eq_ok_iff : (emit (.ok segments) Sink.unlimited).1 = .ok ()
    ↔ ∀ segment ∈ segments, segment.Writable := by
  rw [← exists_emits_iff 0]
  constructor
  · intro taken
    obtain ⟨_, bytes, form, emitted, _⟩ := emit_eq_ok_iff.1 (Prod.ext taken rfl)
    cases form
    exact ⟨bytes, emitted⟩
  · rintro ⟨bytes, emitted⟩
    rw [emit_eq_ok_iff.2 ⟨segments, bytes, rfl, emitted, rfl⟩]

/-- What a sink has received of a file starts with what its first segments give. -/
theorem received_emit {bytes : List UInt8} (emitted : Emits 0 xs bytes) (ys : List Segment) :
    ∃ more, (emit (.ok (xs ++ ys)) Sink.unlimited).2.received = bytes ++ more := by
  have front := Writer.writeAll_of_emits (w := ⟨Sink.unlimited, 0⟩) emitted rfl
  rw [emit_ok, Writer.sink_writeFlushed, Writer.writeAll_append, front]
  exact Writer.received_writeAll _ ys

/-- The end of a file may be replaced by what gives the same bytes. -/
theorem emit_congr (before : List Segment)
    (same : ∀ position, ∃ bytes, Emits position xs bytes ∧ Emits position ys bytes) :
    emit (.ok (before ++ xs)) Sink.unlimited = emit (.ok (before ++ ys)) Sink.unlimited := by
  rw [emit_ok, emit_ok, Writer.writeFlushed, Writer.writeFlushed,
    Writer.writeAll_congr rfl same before]

end Compact
end Transducer
