import Transducer.Proofs.Consumption
import Transducer.Proofs.FileForm
/-!
# The form of a header

A header has one form in bytes. Reading undoes writing (`Header.yields_read`); that writing undoes
reading is a matter of the parts again: what a reading has taken from its source are the bytes that
some segments give (`Source.Took`), for a text because its length is that of its bytes and its bytes
are those of one text only. Main statement: what is written reads back, whatever follows, and
whatever is read from are the bytes that are written (`header_has_one_form`).
-/
namespace Transducer

open Segment Reading

/-! ## What has been taken -/

/-- Between the two sources lie the bytes that the segments give. -/
def Source.Took (source after : Source) (segments : List Segment) : Prop :=
  ∀ lends position content, source.Ahead lends position content → ∃ bytes rest,
    content = bytes ++ rest ∧ after.Ahead lends (position + bytes.length) rest
      ∧ Emits position segments bytes

section

variable {α : Type} {source middle after : Source} {xs ys : List Segment}

theorem Source.Took.append (first : source.Took middle xs) (second : middle.Took after ys) :
    source.Took after (xs ++ ys) := by
  intro lends position content ahead
  obtain ⟨bytes, rest, rfl, ahead, front⟩ := first lends position content ahead
  obtain ⟨more, rest, rfl, ahead, back⟩ := second lends _ rest ahead
  refine ⟨bytes ++ more, rest, (List.append_assoc _ _ _).symm, ?_, front.append back⟩
  rw [List.length_append, ← Nat.add_assoc]
  exact ahead

/-- A request that is met takes the bytes that it gives. -/
theorem took_of_take {n : Nat} {bytes : List UInt8} (read : take n source = (.ok bytes, after)) :
    bytes.length = n ∧ source.Took after [.raw bytes] := by
  cases source with
  | stream reader position =>
    unfold take at read
    simp only at read
    split at read
    · rename_i enough
      cases read
      refine ⟨enough, ?_⟩
      rintro _ _ _ ⟨rfl⟩
      have got := Delivery.fill_fst n reader.pending
      have left := Delivery.content_fill_snd n reader.pending
      refine ⟨_, (Delivery.content reader.pending).drop n, ?_, ?_, emits_raw_iff.2 rfl⟩
      · rw [got, List.take_append_drop]
      · rw [enough]
        exact .stream left
    · cases failed : reader.failure <;> rw [failed] at read <;> cases read
  | mapped content position =>
    unfold take at read
    simp only at read
    split at read
    · rename_i enough
      cases read
      have length : ((content.drop position).take n).length = n := by
        rw [List.length_take, List.length_drop, Nat.min_eq_left enough]
      refine ⟨length, ?_⟩
      intro lends place ahead_ ahead
      cases ahead with
      | mapped front_length =>
        rename_i front
        rw [← front_length, List.drop_left] at length ⊢
        refine ⟨ahead_.take n, ahead_.drop n, (List.take_append_drop n ahead_).symm, ?_,
          emits_raw_iff.2 rfl⟩
        have parts : front ++ ahead_ = front ++ ahead_.take n ++ ahead_.drop n := by
          rw [List.append_assoc, List.take_append_drop]
        rw [parts, length]
        refine .mapped ?_
        rw [List.length_append, length]
    · cases read

theorem took_of_value {L : Layout α} {a : α} (read : value L source = (.ok a, after)) :
    source.Took after [.value L a] := by
  unfold Reading.value at read
  obtain ⟨bytes, middle, taken, decoded⟩ := exists_of_bind_eq_ok read
  obtain ⟨length, took⟩ := took_of_take taken
  cases decoded
  rwa [Segment.value, L.encode_decode bytes length]

/-- A text that is read stood behind the number of its bytes. -/
theorem took_of_text {s : String} (read : text source = (.ok s, after)) :
    source.Took after (Segment.text s) := by
  unfold Reading.text at read
  obtain ⟨length, middle, prefixed, read⟩ := exists_of_bind_eq_ok read
  obtain ⟨nonneg, read⟩ := holds_of_require read
  obtain ⟨bytes, last, taken, read⟩ := exists_of_bind_eq_ok read
  obtain ⟨size, took⟩ := took_of_take taken
  cases found : Text.ofUtf8? bytes with
  | none =>
    rw [found] at read
    cases read
  | some t =>
    rw [found] at read
    cases read
    have same := Text.utf8_of_ofUtf8? found
    have nonneg : 0 ≤ length.toInt := Int32.le_iff_toInt_le.1 (of_decide_eq_true nonneg)
    have fits : bytes.length < 0x80000000 := by
      have below := length.toInt_lt
      omega
    have number : Int32.ofNat bytes.length = length := by
      rw [size, ← Int32.ofInt_eq_ofNat, Int.toNat_of_nonneg nonneg, Int32.ofInt_toInt]
    unfold Segment.text
    simp only [same, fits, if_true, number]
    exact (took_of_value prefixed).append took

end

/-! ## Headers -/

namespace Header

/-- The bytes of a header. -/
def form (h : Header) : List UInt8 :=
  Layout.uint32.encode magic ++ (Layout.int32.encode h.version ++ (Layout.uint32.encode h.flags
    ++ (framed h.typeName ++ (framed h.arcName ++ (Layout.uint64.encode h.properties
    ++ (Layout.int64.encode h.start ++ (Layout.int64.encode h.numStates
    ++ Layout.int64.encode h.numArcs)))))))

/-- The parts of a header, one behind the other. -/
theorem segments_eq_parts (h : Header) :
    h.segments = [Segment.value Layout.uint32 magic]
      ++ ([Segment.value Layout.int32 h.version] ++ ([Segment.value Layout.uint32 h.flags]
      ++ (Segment.text h.typeName ++ (Segment.text h.arcName
      ++ ([Segment.value Layout.uint64 h.properties] ++ ([Segment.value Layout.int64 h.start]
      ++ ([Segment.value Layout.int64 h.numStates]
      ++ [Segment.value Layout.int64 h.numArcs]))))))) := by
  unfold segments
  simp only [List.append_assoc, List.cons_append, List.nil_append]

theorem emits_form {h : Header} (typeName : TextFits h.typeName) (arcName : TextFits h.arcName)
    (position : Nat) : Emits position h.segments h.form := by
  rw [segments_eq_parts]
  unfold form
  refine (emits_value_iff.2 rfl).append ((emits_value_iff.2 rfl).append
    ((emits_value_iff.2 rfl).append ?_))
  refine (emits_text_iff.2 ⟨typeName, rfl⟩).append ((emits_text_iff.2 ⟨arcName, rfl⟩).append ?_)
  exact (emits_value_iff.2 rfl).append ((emits_value_iff.2 rfl).append
    ((emits_value_iff.2 rfl).append (emits_value_iff.2 rfl)))

variable {lends : Bool} {h : Header}

/-- A header whose texts fit and whose counts are not negative comes back, wherever it stands. -/
theorem yields_read (name : String) (typeName : TextFits h.typeName) (arcName : TextFits h.arcName)
    (counts : (decide (0 ≤ h.numStates) && decide (0 ≤ h.numArcs)) = true) (position : Nat) :
    (Header.read name).Yields lends position h.form h := by
  unfold Header.read form
  refine (yields_value Layout.uint32 magic _).bind ?_
  rw [beq_self_eq_true]
  refine (yields_value Layout.int32 h.version _).bind ?_
  refine (yields_value Layout.uint32 h.flags _).bind ?_
  refine (yields_text typeName _).bind ((yields_text arcName _).bind ?_)
  refine (yields_value Layout.uint64 h.properties _).bind ?_
  refine (yields_value Layout.int64 h.start _).bind ?_
  refine (yields_value Layout.int64 h.numStates _).bind ?_
  refine (yields_value Layout.int64 h.numArcs _).bind_nil ?_
  rw [counts]
  exact yields_pure h _

theorem undoes_read (h : Header) (name : String)
    (counts : (decide (0 ≤ h.numStates) && decide (0 ≤ h.numArcs)) = true) :
    (Header.read name).Undoes lends h.segments h := by
  intro position bytes emitted _
  obtain ⟨typeName, arcName⟩ := writable_segments_iff.1 ((exists_emits_iff position).1 ⟨_, emitted⟩)
  rw [emitted.unique (emits_form typeName arcName position)]
  exact yields_read name typeName arcName counts position

/-- A header that is read was there in the one form, and its counts are not negative. -/
theorem took_of_read {name : String} {source after : Source}
    (read : Header.read name source = (.ok h, after)) :
    0 ≤ h.numStates ∧ 0 ≤ h.numArcs ∧ source.Took after h.segments := by
  unfold Header.read at read
  obtain ⟨found, _, first, read⟩ := exists_of_bind_eq_ok read
  obtain ⟨known, read⟩ := holds_of_require read
  obtain ⟨version, _, second, read⟩ := exists_of_bind_eq_ok read
  obtain ⟨flags, _, third, read⟩ := exists_of_bind_eq_ok read
  obtain ⟨typeName, _, fourth, read⟩ := exists_of_bind_eq_ok read
  obtain ⟨arcName, _, fifth, read⟩ := exists_of_bind_eq_ok read
  obtain ⟨properties, _, sixth, read⟩ := exists_of_bind_eq_ok read
  obtain ⟨start, _, seventh, read⟩ := exists_of_bind_eq_ok read
  obtain ⟨numStates, _, eighth, read⟩ := exists_of_bind_eq_ok read
  obtain ⟨numArcs, _, ninth, read⟩ := exists_of_bind_eq_ok read
  obtain ⟨counts, read⟩ := holds_of_require read
  cases read
  rw [beq_iff_eq] at known
  subst known
  rw [Bool.and_eq_true, decide_eq_true_eq, decide_eq_true_eq] at counts
  refine ⟨counts.1, counts.2, ?_⟩
  rw [segments_eq_parts]
  refine (took_of_value first).append ((took_of_value second).append
    ((took_of_value third).append ?_))
  refine (took_of_text fourth).append ((took_of_text fifth).append ?_)
  exact (took_of_value sixth).append ((took_of_value seventh).append
    ((took_of_value eighth).append (took_of_value ninth)))

end Header

/-- A header has one form in bytes. Whatever stands behind it, a header without negative counts
whose texts fit is read back from the bytes that are written for it, and from these alone. Whatever
bytes a header is read from, of any source, are the bytes that are written for it; such a header
has no negative counts and its texts fit. -/
theorem header_has_one_form (name : String) :
    (∀ h : Header, 0 ≤ h.numStates → 0 ≤ h.numArcs → TextFits h.typeName → TextFits h.arcName →
      ∃ bytes, (∀ w : Writer, w.sink.room = none →
          w.writeAll h.segments = (.ok (), w.pushed bytes))
        ∧ ∀ lends position source rest, source.Ahead lends position (bytes ++ rest) →
          ∃ after, Header.read name source = (.ok h, after)
            ∧ after.Ahead lends (position + bytes.length) rest)
      ∧ ∀ lends position content source after h, source.Ahead lends position content →
        Header.read name source = (.ok h, after) →
        (0 ≤ h.numStates ∧ 0 ≤ h.numArcs ∧ TextFits h.typeName ∧ TextFits h.arcName)
          ∧ ∃ bytes rest, content = bytes ++ rest
            ∧ after.Ahead lends (position + bytes.length) rest
            ∧ ∀ w : Writer, w.sink.room = none →
              w.writeAll h.segments = (.ok (), w.pushed bytes) := by
  constructor
  · intro h numStates numArcs typeName arcName
    have counts : (decide (0 ≤ h.numStates) && decide (0 ≤ h.numArcs)) = true := by
      rw [decide_eq_true numStates, decide_eq_true numArcs]
      rfl
    refine ⟨h.form, ?_, ?_⟩
    · intro w unlimited
      exact Writer.writeAll_of_emits (Header.emits_form typeName arcName w.position) unlimited
    · intro lends position source rest ahead
      exact Header.yields_read name typeName arcName counts position source rest ahead
  · intro lends position content source after h ahead read
    obtain ⟨numStates, numArcs, took⟩ := Header.took_of_read read
    obtain ⟨bytes, rest, parts, left, emitted⟩ := took lends position content ahead
    obtain ⟨typeName, arcName⟩ :=
      Header.writable_segments_iff.1 ((exists_emits_iff position).1 ⟨_, emitted⟩)
    refine ⟨⟨numStates, numArcs, typeName, arcName⟩, bytes, rest, parts, left, ?_⟩
    intro w unlimited
    rw [emitted.unique (Header.emits_form typeName arcName position)]
    exact Writer.writeAll_of_emits (Header.emits_form typeName arcName w.position) unlimited

/-- A header with symbols to follow and a start that is no state. -/
def announcing : Header := ⟨"compact_string", "standard", 2, 2, 0x10001, -1, 3, 2⟩

/-- Its bytes read back with one more behind them, and are the bytes it is read from. -/
theorem header_has_one_form_announcing : ∃ bytes,
    Writer.writeAll ⟨Sink.unlimited, 0⟩ announcing.segments
        = (.ok (), Writer.pushed ⟨Sink.unlimited, 0⟩ bytes)
      ∧ ∃ after, Header.read "" (Source.ofMapping (bytes ++ [7])) = (.ok announcing, after)
        ∧ after.Ahead true bytes.length [7]
        ∧ ∃ front rest, bytes ++ [7] = front ++ rest
          ∧ after.Ahead true (0 + front.length) rest
          ∧ Writer.writeAll ⟨Sink.unlimited, 0⟩ announcing.segments
            = (.ok (), Writer.pushed ⟨Sink.unlimited, 0⟩ front) := by
  obtain ⟨forth, back⟩ := header_has_one_form ""
  obtain ⟨bytes, written, reads⟩ := forth announcing (by decide) (by decide) (by decide) (by decide)
  have ahead := Source.ahead_ofMapping (bytes ++ [7])
  obtain ⟨after, read, left⟩ := reads true 0 _ [7] ahead
  obtain ⟨_, front, rest, parts, remains, rewritten⟩ := back true 0 _ _ after announcing ahead read
  rw [Nat.zero_add] at left
  exact ⟨bytes, written _ rfl, after, read, left, front, rest, parts, remains, rewritten _ rfl⟩

end Transducer
