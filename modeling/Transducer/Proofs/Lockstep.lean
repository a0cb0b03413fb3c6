import Transducer.Proofs.FileForm
import Transducer.Proofs.Consumption
/-!
# Writer and reader in step

A file is a sequence of items, each written by one call and read back by the call for its type. The
paddings among them depend on the position, so both sides have to count alike over everything that
stands before. Each call is one step of the writer and one of the source (`Item.emits_form`,
`Item.exists_readsBack`), and the positions agree again behind it (`Lockstep`). Main statement: any
sequence of items is read back item by item, with equal positions after every one of them and
nothing but zeros in the paddings (`reads_in_step`).
-/
namespace Transducer

open Segment Reading

/-- What one call writes. Numbers of either width are values in their layouts. -/
inductive Item : Type 1 where
  | value {α : Type} (L : Layout α) (a : α)
  | text (s : String)
  | raw (bytes : List UInt8)
  | array {α : Type} (L : Layout α) (values : List α)
  /-- A padding up to the next multiple. -/
  | aligned (alignment : Nat)

namespace Item

/-- What can be written: texts whose length fits a signed word, and paddings up to a multiple of
something. -/
def Allowed : Item → Prop
  | text s => TextFits s
  | aligned alignment => 1 ≤ alignment
  | _ => True

/-- What the call gives to the writer. -/
def segments : Item → List Segment
  | value L a => [.value L a]
  | text s => Segment.text s
  | raw bytes => [.raw bytes]
  | array L values => [.array L values]
  | aligned alignment => [.aligned alignment]

/-- The bytes of the item at a position. -/
def form (position : Nat) : Item → List UInt8
  | value L a => L.encode a
  | text s => framed s
  | raw bytes => bytes
  | array L values => L.encodeArray values
  | aligned alignment => List.replicate (padding position alignment) 0

/-- The call for the type of the item reads from the one source what was written, and leaves the
other source. -/
def ReadsBack (mode : ReadMode) (source after : Source) : Item → Prop
  | value L a => Reading.value L source = (.ok a, after)
  | text s => Reading.text source = (.ok s, after)
  | raw bytes => take bytes.length source = (.ok bytes, after)
  | array L values => region L values.length mode source = (.ok (Region.owned values), after)
  | aligned alignment => align alignment source = (.ok (), after)

/-- A padding consists of zeros, as few as lead to the next multiple. -/
def ZerosOnly (w after : Writer) : Item → Prop
  | aligned alignment => ∃ zeros < alignment,
      after.sink.received = w.sink.received ++ List.replicate zeros 0
        ∧ after.position = w.position + zeros ∧ alignment ∣ after.position
  | _ => True

variable {item : Item}

theorem emits_form (allowed : item.Allowed) (position : Nat) :
    Emits position item.segments (item.form position) := by
  cases item with
  | value L a => exact emits_value_iff.2 rfl
  | text s => exact emits_text_iff.2 ⟨allowed, rfl⟩
  | raw bytes => exact emits_raw_iff.2 rfl
  | array L values => exact emits_array_iff.2 rfl
  | aligned alignment =>
    have padded := Emits.aligned allowed (.nil (position + padding position alignment))
    rwa [List.append_nil] at padded

theorem zerosOnly_pushed (allowed : item.Allowed) (w : Writer) :
    item.ZerosOnly w (w.pushed (item.form w.position)) := by
  cases item with
  | aligned alignment =>
    refine ⟨padding w.position alignment, padding_lt w.position allowed, rfl, ?_, ?_⟩
    · simp [form]
    · simp only [Writer.position_pushed, form, List.length_replicate]
      exact Nat.dvd_of_mod_eq_zero (padding_aligns w.position allowed)
  | value L a => trivial
  | text s => trivial
  | raw bytes => trivial
  | array L values => trivial

/-- Only from a mapping are arrays borrowed, and only when asked. -/
theorem region_eq_copy {α : Type} {lends : Bool} {mode : ReadMode}
    (copies : lends = true → mode = .copy) {source : Source} {position : Nat} {rest : List UInt8}
    (ahead : source.Ahead lends position rest) (L : Layout α) (length : Nat) :
    region L length mode source = copy L length source := by
  cases ahead with
  | stream content => cases mode <;> rfl
  | mapped length =>
    rw [copies rfl]
    rfl

/-- One call on either side. -/
theorem exists_readsBack (allowed : item.Allowed) {lends : Bool} {mode : ReadMode}
    (copies : lends = true → mode = .copy) {position : Nat}
    (short : (item.form position).length < Region.byteLimit) {source : Source} {rest : List UInt8}
    (ahead : source.Ahead lends position (item.form position ++ rest)) :
    ∃ after, item.ReadsBack mode source after
      ∧ after.Ahead lends (position + (item.form position).length) rest := by
  cases item with
  | value L a => exact yields_value L a position source rest ahead
  | text s => exact yields_text allowed position source rest ahead
  | raw bytes => exact yields_take bytes position source rest ahead
  | array L values =>
    change ∃ after, region L values.length mode source = _ ∧ _
    rw [region_eq_copy copies ahead]
    exact yields_copy L short position source rest ahead
  | aligned alignment => exact yields_align allowed position source rest ahead

end Item

/-- A writer writes the items and a source gives them back, call by call, with equal positions
after every call. -/
inductive Lockstep (mode : ReadMode) : List Item → Writer → Source → Writer → Source → Prop where
  | done (w : Writer) (source : Source) : Lockstep mode [] w source w source
  | step {item : Item} {items : List Item} {w next after : Writer} {source left rest : Source}
      (written : w.writeAll item.segments = (.ok (), next))
      (read : item.ReadsBack mode source left)
      (positions : left.position = next.position)
      (padding : item.ZerosOnly w next)
      (later : Lockstep mode items next left after rest) :
      Lockstep mode (item :: items) w source after rest

/-- Whatever items are written one after the other, from whatever position, a source that stands at
the position of the writer and has their bytes ahead gives them back by the corresponding calls,
whatever follows. Its position is that of the writer after every call, and paddings consist of
zeros. The source is a stream that delivers as it likes, or a mapping of which arrays are copied. -/
theorem reads_in_step (items : List Item) (allowed : ∀ item ∈ items, item.Allowed) (w : Writer)
    (unlimited : w.sink.room = none) :
    ∃ bytes, w.writeAll (items.flatMap Item.segments) = (.ok (), w.pushed bytes)
      ∧ (w.position + bytes.length < 2 ^ (64 : Nat) → ∀ lends mode source rest,
        (lends = true → mode = .copy) → source.Ahead lends w.position (bytes ++ rest) →
          ∃ after, Lockstep mode items w source (w.pushed bytes) after
            ∧ after.Ahead lends (w.position + bytes.length) rest) := by
  induction items generalizing w with
  | nil =>
    have nothing : w.writeAll [] = (.ok (), w.pushed []) :=
      Writer.writeAll_of_emits (.nil w.position) unlimited
    refine ⟨[], nothing, ?_⟩
    intro _ lends mode source rest _ ahead
    have same : w.pushed [] = w := by
      simpa [Writer.writeAll] using (congrArg Prod.snd nothing).symm
    rw [same]
    exact ⟨source, .done w source, ahead⟩
  | cons item items ih =>
    rw [List.forall_mem_cons] at allowed
    obtain ⟨first, others⟩ := allowed
    have written := Writer.writeAll_of_emits (item.emits_form first w.position) unlimited
    obtain ⟨bytes, later, reads⟩ := ih others (w.pushed (item.form w.position)) unlimited
    refine ⟨item.form w.position ++ bytes, ?_, ?_⟩
    · rw [List.flatMap_cons, Writer.writeAll_append, written, ← Writer.pushed_pushed]
      exact later
    · intro short lends mode source rest copies ahead
      rw [List.length_append] at short ⊢
      rw [List.append_assoc] at ahead
      have fits : (item.form w.position).length < Region.byteLimit := by
        unfold Region.byteLimit
        omega
      obtain ⟨left, read, ahead⟩ := Item.exists_readsBack first copies fits ahead
      have positions := ahead.position_eq
      obtain ⟨after, steps, ahead⟩ := reads (by rw [Writer.position_pushed]; omega) lends mode left
        rest copies ahead
      rw [Writer.pushed_pushed] at steps
      rw [Writer.position_pushed, Nat.add_assoc] at ahead
      refine ⟨after, ?_, ahead⟩
      exact .step written read positions (Item.zerosOnly_pushed first w) steps

/-- A number, a text, a wide padding and an array. -/
def greeting : List Item :=
  [.value Layout.int64 (-3), .text "hello", .aligned 48, .array Layout.uint32 [1, 2, 3]]

/-- It is read back from a stream that is interrupted, from position 5 on, with a byte behind it. -/
theorem reads_in_step_greeting : ∃ bytes after,
    Writer.writeAll ⟨Sink.unlimited, 5⟩ (greeting.flatMap Item.segments)
        = (.ok (), Writer.pushed ⟨Sink.unlimited, 5⟩ bytes)
      ∧ Lockstep .borrow greeting ⟨Sink.unlimited, 5⟩
          (.stream ⟨[.interruption, .bytes bytes, .bytes [9]], none⟩ 5)
          (Writer.pushed ⟨Sink.unlimited, 5⟩ bytes) after
      ∧ after.Ahead false (5 + bytes.length) [9] := by
  have allowed : ∀ item ∈ greeting, item.Allowed := by
    have text : TextFits "hello" := by decide
    have padding : 1 ≤ 48 := by decide
    simp [greeting, Item.Allowed, text, padding]
  obtain ⟨bytes, written, reads⟩ := reads_in_step greeting allowed ⟨Sink.unlimited, 5⟩ rfl
  have short : 5 + bytes.length < 2 ^ (64 : Nat) := by
    have place : (Writer.writeAll ⟨Sink.unlimited, 5⟩ (greeting.flatMap Item.segments)).2.position
        < 2 ^ (64 : Nat) := by
      decide
    rwa [written] at place
  obtain ⟨after, steps, ahead⟩ := reads short false .borrow
    (.stream ⟨[.interruption, .bytes bytes, .bytes [9]], none⟩ 5) [9] (fun lent => nomatch lent)
    (.stream rfl)
  exact ⟨bytes, after, written, steps, ahead⟩

end Transducer
