import Transducer.Proofs.Emission
import Transducer.Proofs.Outcome
/-!
# What is read

A reading undoes segments when it reads back, wherever they stand in a file shorter than
`fileLimit`, the value they were made of, taking exactly their bytes from a reader or from a
mapping. How a reader cuts its bytes into deliveries and how often it is interrupted makes no
difference, since only what is ahead of a source matters (`Ahead`). Undoing is closed under
sequences (`Undoes.bind`), so files need no more than the laws of their smallest parts: values,
texts, paddings and arrays. A reading refuses segments when it stops at them with an error; steps
that undo what stands in front lead up to the refusal (`Undoes.bind_refuses`).
-/
namespace Transducer

/-- Files are shorter than this. -/
def fileLimit : Nat := 2 ^ (63 : Nat)

/-- What a source has ahead of its position; a mapping lends its bytes. -/
inductive Source.Ahead : Source → Bool → Nat → List UInt8 → Prop where
  | stream {reader : Reader} {position : Nat} {rest : List UInt8}
      (content : Delivery.content reader.pending = rest) :
      Ahead (.stream reader position) false position rest
  | mapped {front rest : List UInt8} {position : Nat} (length : front.length = position) :
      Ahead (.mapped (front ++ rest) position) true position rest

theorem Source.Ahead.position_eq {source : Source} {lends : Bool} {position : Nat}
    {rest : List UInt8} (ahead : source.Ahead lends position rest) :
    source.position = position := by
  cases ahead with
  | stream content => rfl
  | mapped length => rfl

/-- A stream of the bytes of a file has them ahead, and so has a mapping of them. -/
theorem Source.ahead_ofBytes (bytes : List UInt8) : (ofBytes bytes).Ahead false 0 bytes :=
  .stream (List.append_nil bytes)

theorem Source.ahead_ofMapping (bytes : List UInt8) : (ofMapping bytes).Ahead true 0 bytes :=
  .mapped (List.length_nil : ([] : List UInt8).length = 0)

namespace Reading

open Segment

variable {α β : Type} {lends : Bool}

theorem id_map_reading (x : Reading α) : id <$> x = x := by
  funext source
  change Reading.bind x (fun a => Reading.pure (id a)) source = x source
  unfold Reading.bind
  cases x source with
  | mk outcome after => cases outcome <;> rfl

theorem bind_assoc_reading {γ : Type} (x : Reading α) (f : α → Reading β) (g : β → Reading γ) :
    x >>= f >>= g = x >>= fun a => f a >>= g := by
  funext source
  change Reading.bind (Reading.bind x f) g source = Reading.bind x (fun a => f a >>= g) source
  unfold Reading.bind
  cases x source with
  | mk outcome after => cases outcome <;> rfl

instance : LawfulMonad Reading :=
  LawfulMonad.mk' Reading id_map_reading (fun _ _ => rfl) bind_assoc_reading

/-- A sequence succeeds when both of its steps do. -/
theorem exists_of_bind_eq_ok {x : Reading α} {f : α → Reading β} {source after : Source} {b : β}
    (h : (x >>= f) source = (.ok b, after)) :
    ∃ a middle, x source = (.ok a, middle) ∧ f a middle = (.ok b, after) := by
  change Reading.bind x f source = _ at h
  unfold Reading.bind at h
  cases read : x source with
  | mk outcome middle =>
    rw [read] at h
    cases outcome with
    | ok a => exact ⟨a, middle, rfl, h⟩
    | error cause => cases h

theorem condition_of_require {condition : Bool} {cause : Error} {source after : Source} {u : Unit}
    (h : Reading.require condition cause source = (.ok u, after)) :
    condition = true ∧ after = source := by
  cases condition with
  | false => cases h
  | true =>
    cases h
    exact ⟨rfl, rfl⟩

/-- A checked condition holds when the rest is reached. -/
theorem holds_of_require {condition : Bool} {cause : Error} {f : Unit → Reading β}
    {source after : Source} {b : β}
    (h : (Reading.require condition cause >>= f) source = (.ok b, after)) :
    condition = true ∧ f () source = (.ok b, after) := by
  cases condition with
  | false => cases h
  | true => exact ⟨rfl, h⟩

theorem outcome_of_lift {outcome : Except Error α} {source after : Source} {a : α}
    (h : lift outcome source = (.ok a, after)) : outcome = .ok a ∧ after = source := by
  cases outcome with
  | error cause => cases h
  | ok b =>
    cases h
    exact ⟨rfl, rfl⟩

/-- The reading takes the bytes at the position and gives the value. -/
def Yields (lends : Bool) (reading : Reading α) (position : Nat) (bytes : List UInt8)
    (a : α) : Prop :=
  ∀ source rest, source.Ahead lends position (bytes ++ rest) →
    ∃ after, reading source = (.ok a, after) ∧ after.Ahead lends (position + bytes.length) rest

/-- The reading gives back what the segments were made of, wherever they stand in a file. -/
def Undoes (lends : Bool) (reading : Reading α) (segments : List Segment) (a : α) : Prop :=
  ∀ position bytes, Emits position segments bytes → position + bytes.length < fileLimit →
    reading.Yields lends position bytes a

/-! ## Sequences -/

theorem Yields.bind {x : Reading α} {f : α → Reading β} {position : Nat} {bytes more : List UInt8}
    {a : α} {b : β} (first : x.Yields lends position bytes a)
    (second : (f a).Yields lends (position + bytes.length) more b) :
    (x >>= f).Yields lends position (bytes ++ more) b := by
  intro source rest ahead
  rw [List.append_assoc] at ahead
  obtain ⟨middle, read, ahead⟩ := first source _ ahead
  obtain ⟨after, reads, ahead⟩ := second middle _ ahead
  refine ⟨after, ?_, ?_⟩
  · change Reading.bind x f source = _
    unfold Reading.bind
    rw [read]
    exact reads
  · rw [List.length_append, ← Nat.add_assoc]
    exact ahead

/-- A step after which nothing more is taken. -/
theorem Yields.bind_nil {x : Reading α} {f : α → Reading β} {position : Nat} {bytes : List UInt8}
    {a : α} {b : β} (first : x.Yields lends position bytes a)
    (second : (f a).Yields lends (position + bytes.length) [] b) :
    (x >>= f).Yields lends position bytes b := by
  have both := first.bind second
  rwa [List.append_nil] at both

theorem Undoes.bind {x : Reading α} {f : α → Reading β} {xs ys : List Segment} {a : α} {b : β}
    (first : x.Undoes lends xs a) (second : (f a).Undoes lends ys b) :
    (x >>= f).Undoes lends (xs ++ ys) b := by
  intro position out emitted short
  obtain ⟨bytes, more, rfl, front, back⟩ := emitted.split
  rw [List.length_append] at short
  exact (first _ _ front (by omega)).bind (second _ _ back (by omega))

theorem yields_pure (a : α) (position : Nat) :
    (pure a : Reading α).Yields lends position [] a :=
  fun source _ ahead => ⟨source, rfl, ahead⟩

theorem undoes_pure (a : α) : (pure a : Reading α).Undoes lends [] a := by
  intro position bytes emitted _
  rw [emits_nil_iff.1 emitted]
  exact yields_pure a position

/-- A last step that only computes. -/
theorem Undoes.map {x : Reading α} {xs : List Segment} {a : α} (h : x.Undoes lends xs a)
    (f : α → β) : (x >>= fun a => pure (f a)).Undoes lends xs (f a) := by
  have both : (x >>= fun a => pure (f a)).Undoes lends (xs ++ []) (f a) :=
    h.bind (undoes_pure (f a))
  rwa [List.append_nil] at both

/-- A condition that holds. -/
theorem Undoes.require {condition : Bool} {cause : Error} {next : Reading β} {ys : List Segment}
    {b : β} (holds : condition = true) (h : next.Undoes lends ys b) :
    (Reading.require condition cause >>= fun _ => next).Undoes lends ys b := by
  rw [holds]
  exact h

/-! ## Refusals -/

/-- The reading stops at the segments with the error, wherever they stand in a file. -/
def Refuses (lends : Bool) (reading : Reading α) (segments : List Segment) (cause : Error) : Prop :=
  ∀ position bytes, Emits position segments bytes → position + bytes.length < fileLimit →
    ∀ source rest, source.Ahead lends position (bytes ++ rest) →
      ∃ after, reading source = (.error cause, after)

/-- A step that succeeds before one that is refused. -/
theorem Undoes.bind_refuses {x : Reading α} {f : α → Reading β} {xs ys : List Segment} {a : α}
    {cause : Error} (first : x.Undoes lends xs a) (second : (f a).Refuses lends ys cause) :
    (x >>= f).Refuses lends (xs ++ ys) cause := by
  intro position out emitted short source rest ahead
  obtain ⟨bytes, more, rfl, front, back⟩ := emitted.split
  rw [List.length_append] at short
  rw [List.append_assoc] at ahead
  obtain ⟨middle, read, ahead⟩ := first _ _ front (by omega) source _ ahead
  obtain ⟨after, stopped⟩ := second _ _ back (by omega) middle _ ahead
  refine ⟨after, ?_⟩
  change Reading.bind x f source = _
  unfold Reading.bind
  rw [read]
  exact stopped

/-- What is refused stays refused, whatever was to be read after it. -/
theorem Refuses.bind {x : Reading α} {segments : List Segment} {cause : Error}
    (refused : x.Refuses lends segments cause) (f : α → Reading β) :
    (x >>= f).Refuses lends segments cause := by
  intro position bytes emitted short source rest ahead
  obtain ⟨after, stopped⟩ := refused position bytes emitted short source rest ahead
  refine ⟨after, ?_⟩
  change Reading.bind x f source = _
  unfold Reading.bind
  rw [stopped]

/-- What is refused stays refused, whatever stands behind it. -/
theorem Refuses.append {x : Reading α} {xs : List Segment} {cause : Error}
    (refused : x.Refuses lends xs cause) (ys : List Segment) :
    x.Refuses lends (xs ++ ys) cause := by
  intro position out emitted short source rest ahead
  obtain ⟨bytes, more, rfl, front, _⟩ := emitted.split
  rw [List.length_append] at short
  rw [List.append_assoc] at ahead
  exact refused position bytes front (by omega) source _ ahead

/-- A condition that does not hold. -/
theorem refuses_require {condition : Bool} (fails : condition = false) (cause : Error)
    (next : Unit → Reading β) (segments : List Segment) :
    (Reading.require condition cause >>= next).Refuses lends segments cause := by
  rw [fails]
  exact fun _ _ _ _ source _ _ => ⟨source, rfl⟩

/-- A condition that holds. -/
theorem Refuses.require {condition : Bool} {cause failure : Error} {next : Reading β}
    {segments : List Segment} (holds : condition = true)
    (refused : next.Refuses lends segments cause) :
    (Reading.require condition failure >>= fun _ => next).Refuses lends segments cause := by
  rw [holds]
  exact refused

/-! ## Parts -/

theorem yields_take (bytes : List UInt8) (position : Nat) :
    (take bytes.length).Yields lends position bytes bytes := by
  intro source rest ahead
  cases ahead with
  | stream content =>
    rename_i reader
    have got : (Delivery.fill bytes.length reader.pending).1 = bytes := by
      rw [Delivery.fill_fst, content, List.take_left]
    have left : Delivery.content (Delivery.fill bytes.length reader.pending).2 = rest := by
      rw [Delivery.content_fill_snd, content, List.drop_left]
    refine ⟨.stream { reader with pending := (Delivery.fill bytes.length reader.pending).2 }
      (position + bytes.length), ?_, .stream left⟩
    change (if (Delivery.fill bytes.length reader.pending).1.length = bytes.length then _ else _)
      = _
    rw [got, if_pos rfl]
  | mapped length =>
    rename_i front
    subst length
    have enough : bytes.length ≤ (front ++ (bytes ++ rest)).length - front.length := by
      rw [List.length_append, List.length_append]
      omega
    refine ⟨.mapped (front ++ bytes ++ rest) (front.length + bytes.length), ?_,
      .mapped (List.length_append)⟩
    unfold take
    simp only
    rw [if_pos enough, List.drop_left, List.take_left, List.append_assoc]

theorem yields_value (L : Layout α) (a : α) (position : Nat) :
    (value L).Yields lends position (L.encode a) a := by
  have taken : (take (L.encode a).length).Yields lends position (L.encode a) (L.encode a) :=
    yields_take (L.encode a) position
  rw [L.length_encode] at taken
  have decoded : (value L).Yields lends position (L.encode a) (L.decode (L.encode a)) :=
    taken.bind_nil (yields_pure _ _)
  rwa [L.decode_encode] at decoded

theorem undoes_value (L : Layout α) (a : α) : (value L).Undoes lends [.value L a] a := by
  intro position bytes emitted _
  rw [emits_value_iff.1 emitted]
  exact yields_value L a position

theorem yields_text {s : String} (fits : (Text.utf8 s).length < 0x80000000) (position : Nat) :
    text.Yields lends position (framed s) s := by
  have length : (Int32.ofNat (Text.utf8 s).length).toInt = (Text.utf8 s).length :=
    Int32.toInt_ofNat_of_lt fits
  have nonneg : (0 : Int32) ≤ Int32.ofNat (Text.utf8 s).length := by
    rw [Int32.le_iff_toInt_le, length]
    exact Int.natCast_nonneg _
  refine (yields_value Layout.int32 _ position).bind ?_
  have checked : (decide ((0 : Int32) ≤ Int32.ofNat (Text.utf8 s).length)) = true :=
    decide_eq_true nonneg
  rw [checked]
  change (take (Int32.ofNat (Text.utf8 s).length).toInt.toNat >>= fun bytes => _).Yields _ _ _ _
  rw [length, Int.toNat_natCast]
  refine (yields_take (Text.utf8 s) _).bind_nil ?_
  rw [Text.ofUtf8?_utf8]
  exact yields_pure s _

theorem undoes_text (s : String) : text.Undoes lends (Segment.text s) s := by
  intro position bytes emitted _
  obtain ⟨fits, rfl⟩ := emits_text_iff.1 emitted
  exact yields_text fits position

theorem yields_align {alignment : Nat} (positive : 0 < alignment) (position : Nat) :
    (align alignment).Yields lends position (List.replicate (padding position alignment) 0) () := by
  intro source rest ahead
  have pad : paddingTo source.position alignment = .ok (padding position alignment) := by
    rw [ahead.position_eq]
    exact if_neg (Nat.ne_of_gt positive)
  have taken : Yields lends _ position (List.replicate (padding position alignment) 0) _ :=
    yields_take _ position
  have passed := taken.bind_nil (f := fun _ => pure ()) (yields_pure () _)
  rw [List.length_replicate] at passed
  unfold align
  rw [pad]
  exact passed source rest ahead

theorem undoes_align (alignment : Nat) :
    (align alignment).Undoes lends [.aligned alignment] () := by
  intro position bytes emitted _
  cases emitted with
  | aligned positive later =>
    cases later
    rw [List.append_nil]
    exact yields_align positive position

/-! ## Arrays -/

theorem eq_of_byteLength {L : Layout α} {length size : Nat}
    (counted : Region.byteLength L length = .ok size) : size = length * L.size := by
  unfold Region.byteLength at counted
  split at counted <;> cases counted
  rfl

/-- An array that is lent lies in the bytes. -/
theorem eq_of_borrow {L : Layout α} {bytes : List UInt8} {offset length : Nat} {found : Region α}
    (lent : Region.borrow L bytes offset length = .ok found) :
    length * L.size ≤ bytes.length - offset
      ∧ found = ⟨L.decodeArray length (bytes.drop offset), true⟩ := by
  unfold Region.borrow at lent
  obtain ⟨size, counted, lent⟩ := bind_eq_ok_iff.1 lent
  rw [← eq_of_byteLength counted]
  simp only at lent
  split at lent
  · cases lent
  · rename_i enough
    split at lent
    · cases lent
    · split at lent
      · cases lent
      · cases lent
        exact ⟨Nat.le_of_not_lt enough, rfl⟩

/-- An array that is read was copied, or a mapping lent it. -/
theorem copy_or_borrow_of_region {L : Layout α} {length : Nat} {mode : ReadMode}
    {source after : Source} {found : Region α}
    (read : region L length mode source = (.ok found, after)) :
    copy L length source = (.ok found, after) ∨ ∃ bytes position,
      source = .mapped bytes position ∧ Region.borrow L bytes position length = .ok found := by
  unfold region at read
  split at read
  · rename_i bytes position
    refine Or.inr ⟨bytes, position, rfl, ?_⟩
    unfold borrow at read
    cases lent : Region.borrow L bytes position length with
    | error cause =>
      rw [lent] at read
      cases read
    | ok region =>
      rw [lent] at read
      cases read
      rfl
  · exact Or.inl read

theorem byteLength_of_lt {L : Layout α} {values : List α}
    (short : (L.encodeArray values).length < Region.byteLimit) :
    Region.byteLength L values.length = .ok (L.encodeArray values).length := by
  rw [Layout.length_encodeArray] at short ⊢
  exact if_pos short

/-- An array is as long as its values demand, so a file short enough holds no array too long. -/
theorem byteLength_of_emits {L : Layout α} {values : List α} {position : Nat}
    (short : position + (L.encodeArray values).length < fileLimit) :
    Region.byteLength L values.length = .ok (L.encodeArray values).length := by
  have limit : fileLimit < Region.byteLimit := by decide
  exact byteLength_of_lt (by omega)

theorem yields_copy (L : Layout α) {values : List α}
    (short : (L.encodeArray values).length < Region.byteLimit) (position : Nat) :
    (copy L values.length).Yields lends position (L.encodeArray values) (Region.owned values) := by
  have back := L.decodeArray_encodeArray values []
  rw [List.append_nil] at back
  have copied : (copy L values.length).Yields lends position (L.encodeArray values)
      (Region.owned (L.decodeArray values.length (L.encodeArray values))) := by
    unfold copy
    rw [byteLength_of_lt short]
    exact (yields_take (L.encodeArray values) position).bind_nil (yields_pure _ _)
  rwa [back] at copied

theorem undoes_copy (L : Layout α) (values : List α) :
    (copy L values.length).Undoes lends [.array L values] (Region.owned values) := by
  intro position bytes emitted short
  have limit : fileLimit < Region.byteLimit := by decide
  rw [emits_array_iff.1 emitted] at short ⊢
  exact yields_copy L (by omega) position

/-- A mapping lends an array that starts at a multiple of its alignment. -/
theorem yields_borrow (L : Layout α) (values : List α) {position : Nat}
    (aligned : position % L.alignment = 0)
    (short : position + (L.encodeArray values).length < fileLimit) :
    (region L values.length .borrow).Yields true position (L.encodeArray values)
      ⟨values, true⟩ := by
  intro source rest ahead
  cases ahead with
  | mapped length =>
    rename_i front
    subst length
    refine ⟨.mapped (front ++ L.encodeArray values ++ rest)
      (front.length + (L.encodeArray values).length), ?_, .mapped List.length_append⟩
    have enough : ¬ (front ++ (L.encodeArray values ++ rest)).length - front.length
        < (L.encodeArray values).length := by
      rw [List.length_append, List.length_append]
      omega
    have inside : ¬ (front ++ (L.encodeArray values ++ rest)).length < front.length := by
      rw [List.length_append]
      omega
    have lent : Region.borrow L (front ++ (L.encodeArray values ++ rest)) front.length
        values.length = .ok ⟨values, true⟩ := by
      unfold Region.borrow
      rw [byteLength_of_emits short]
      simp only [bind, Except.bind, enough, inside, aligned, if_false, ne_eq, not_true_eq_false,
        pure, Except.pure, List.drop_left, L.decodeArray_encodeArray]
    change borrow L values.length (front ++ (L.encodeArray values ++ rest)) front.length = _
    unfold borrow
    rw [lent]
    simp only [Layout.length_encodeArray, List.append_assoc]

end Reading
end Transducer
