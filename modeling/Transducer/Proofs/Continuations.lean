import Transducer.Proofs.Consumption
import Transducer.Proofs.PlainReading
/-!
# Two sources with the same bytes

A reading depends on its source only through the bytes ahead. Two sources are compared here that
stand at one position and have the same bytes ahead, except that the second may have more of them
where the first ends. Read side by side, both give the same value and go on side by side, or both
fail with the same cause, or the first ends too early (`Matched`). The comparison is closed under
sequences (`Alike.bind`), so a file format inherits it from its parts. Without more bytes it says
that the kind of source and the size of the deliveries make no difference; with more bytes it says
that a file that was cut off is noticed. Arrays that are borrowed from one source and copied from
the other have the same values (`Reading.alike_padded`).
-/
namespace Transducer

/-- A source that only ends: a mapping, or a reader that does not fail. -/
def Source.Ends : Source → Prop
  | .stream reader _ => reader.failure = none
  | .mapped .. => True

/-- From its position on the source has these bytes, and then it ends. -/
structure Source.Offers (source : Source) (lends : Bool) (position : Nat) (rest : List UInt8) :
    Prop where
  ahead : source.Ahead lends position rest
  ends : source.Ends

/-- A reader offers the bytes of its deliveries, however they are cut and interrupted. -/
theorem Source.offers_stream (pending : List Delivery) (position : Nat) :
    (Source.stream ⟨pending, none⟩ position).Offers false position (Delivery.content pending) :=
  ⟨.stream rfl, rfl⟩

theorem Source.offers_ofMapping (bytes : List UInt8) : (ofMapping bytes).Offers true 0 bytes :=
  ⟨ahead_ofMapping bytes, trivial⟩

/-- An array is read from its own bytes alone. -/
theorem Layout.decodeArray_take {α : Type} (L : Layout α) (length : Nat) (bytes : List UInt8) :
    L.decodeArray length (bytes.take (length * L.size)) = L.decodeArray length bytes := by
  induction length generalizing bytes with
  | zero => rfl
  | succ length ih =>
    have front : min L.size ((length + 1) * L.size) = L.size := by
      rw [Nat.add_one_mul]
      omega
    have back : (length + 1) * L.size - L.size = length * L.size := by
      rw [Nat.add_one_mul]
      omega
    simp only [decodeArray, List.take_take, List.drop_take, front, back, ih]

namespace Reading

variable {α β γ δ : Type}

/-! ## What a request gets -/

/-- The answer to a request for `size` bytes that are read as `a`. -/
inductive Asked (lends : Bool) (position : Nat) (rest : List UInt8) (size : Nat) (a : α) :
    Except Error α × Source → Prop where
  | enough {after : Source} (fits : size ≤ rest.length)
      (offers : after.Offers lends (position + size) (rest.drop size)) :
      Asked lends position rest size a (.ok a, after)
  | short (after : Source) (excess : rest.length < size) :
      Asked lends position rest size a (.error (.shortRead size rest.length), after)

section
variable {lends : Bool} {position : Nat} {rest : List UInt8} {source : Source}

theorem asked_take (offers : source.Offers lends position rest) (n : Nat) :
    Asked lends position rest n (rest.take n) (take n source) := by
  obtain ⟨ahead, ends⟩ := offers
  cases ahead with
  | stream content =>
    rename_i reader
    have got : (Delivery.fill n reader.pending).1 = rest.take n := by
      rw [Delivery.fill_fst, content]
    have left : Delivery.content (Delivery.fill n reader.pending).2 = rest.drop n := by
      rw [Delivery.content_fill_snd, content]
    have failure : reader.failure = none := ends
    simp only [take, got, failure, List.length_take]
    by_cases fits : n ≤ rest.length
    · rw [if_pos (by omega)]
      exact .enough fits ⟨.stream left, rfl⟩
    · rw [if_neg (by omega), Nat.min_eq_right (by omega)]
      exact .short _ (by omega)
  | mapped length =>
    rename_i front
    subst length
    have available : (front ++ rest).length - front.length = rest.length := by simp
    simp only [take, available, List.drop_left]
    by_cases fits : n ≤ rest.length
    · rw [if_pos fits]
      refine .enough fits ⟨?_, trivial⟩
      have cut : front ++ rest = (front ++ rest.take n) ++ rest.drop n := by simp
      rw [cut]
      apply Source.Ahead.mapped
      simp [fits]
    · rw [if_neg fits]
      apply Asked.short
      omega

/-- A value that is computed from what a request gets. -/
theorem Asked.map {size : Nat} {a : α} {outcome : Except Error α × Source}
    (asked : Asked lends position rest size a outcome) {x : Reading α}
    (answer : x source = outcome) (f : α → β) :
    Asked lends position rest size (f a) ((x >>= fun a => pure (f a)) source) := by
  change Asked lends position rest size (f a) (Reading.bind x (fun a => pure (f a)) source)
  unfold Reading.bind
  rw [answer]
  cases asked with
  | enough fits offers => exact .enough fits offers
  | short after excess => exact .short after excess

theorem asked_copy (offers : source.Offers lends position rest) (L : Layout α) (length : Nat)
    (small : length * L.size < Region.byteLimit) :
    Asked lends position rest (length * L.size) (Region.owned (L.decodeArray length rest))
      (copy L length source) := by
  have size : Region.byteLength L length = .ok (length * L.size) := if_pos small
  have answer := (asked_take offers (length * L.size)).map rfl
    fun bytes => Region.owned (L.decodeArray length bytes)
  rw [Layout.decodeArray_take] at answer
  unfold copy
  rw [size]
  exact answer

/-- Borrowing looks at the bytes that copying takes, and refuses when copying does. -/
theorem asked_borrow (offers : source.Offers true position rest) (L : Layout α) (length : Nat)
    (small : length * L.size < Region.byteLimit) (aligned : position % L.alignment = 0) :
    Asked true position rest (length * L.size) ⟨L.decodeArray length rest, true⟩
      (region L length .borrow source) := by
  obtain ⟨ahead, -⟩ := offers
  cases ahead with
  | mapped length_eq =>
    rename_i front
    subst length_eq
    have size : Region.byteLength L length = .ok (length * L.size) := if_pos small
    have available : (front ++ rest).length - front.length = rest.length := by simp
    have inside : ¬ (front ++ rest).length < front.length := by simp
    change Asked true front.length rest (length * L.size) _
      (borrow L length (front ++ rest) front.length)
    simp only [borrow, Region.borrow, size, available, inside, aligned, List.drop_left]
    by_cases fits : length * L.size ≤ rest.length
    · simp only [bind, Except.bind, if_neg (Nat.not_lt.2 fits), if_false, ne_eq,
        not_true_eq_false, pure, Except.pure]
      refine .enough fits ⟨?_, trivial⟩
      have cut : front ++ rest = (front ++ rest.take (length * L.size))
          ++ rest.drop (length * L.size) := by simp
      rw [cut]
      apply Source.Ahead.mapped
      simp [fits]
    · simp only [bind, Except.bind, if_pos (Nat.lt_of_not_le fits), throw, throwThe,
        MonadExceptOf.throw]
      apply Asked.short
      omega

/-- An array is borrowed where that is asked for and the source lends its bytes. -/
theorem asked_region (offers : source.Offers lends position rest) (L : Layout α) (length : Nat)
    (mode : ReadMode) (small : length * L.size < Region.byteLimit)
    (aligned : mode = .borrow → position % L.alignment = 0) :
    Asked lends position rest (length * L.size)
      ⟨L.decodeArray length rest, decide (mode = .borrow) && lends⟩
      (region L length mode source) := by
  cases mode with
  | copy => exact asked_copy offers L length small
  | borrow =>
    cases lends with
    | true => exact asked_borrow offers L length small (aligned rfl)
    | false =>
      have copied := asked_copy offers L length small
      obtain ⟨ahead, -⟩ := offers
      cases ahead with
      | stream content => exact copied

theorem position_of_take {n : Nat} {bytes : List UInt8} {after : Source}
    (taken : take n source = (.ok bytes, after)) : after.position = source.position + n := by
  cases source with
  | stream reader position =>
    simp only [take] at taken
    split at taken
    · cases taken
      rfl
    · split at taken <;> cases taken
  | mapped all position =>
    simp only [take] at taken
    split at taken <;> cases taken
    rfl

theorem position_of_align {alignment : Nat} {after : Source} (positive : 0 < alignment)
    (passed : align alignment source = (.ok (), after)) : after.position % alignment = 0 := by
  have pad : paddingTo source.position alignment = .ok (padding source.position alignment) :=
    if_neg (Nat.ne_of_gt positive)
  unfold align at passed
  rw [pad] at passed
  obtain ⟨bytes, middle, taken, rest⟩ := exists_of_bind_eq_ok passed
  cases rest
  rw [position_of_take taken]
  exact padding_aligns source.position positive

/-- Behind the padding of an aligned file every array may start. -/
theorem aligned_of_readPad (L : Layout α) {after : Source} {u : Unit}
    (passed : Store.readPad true source = (.ok u, after)) : after.position % L.alignment = 0 := by
  have start : after.position % fileAlignment = 0 := position_of_align (by decide) passed
  exact Nat.mod_eq_zero_of_dvd (Nat.dvd_trans L.alignment_dvd (Nat.dvd_of_mod_eq_zero start))

/-- An array of more bytes than can be counted is refused before anything is taken. -/
theorem region_of_long (L : Layout α) (length : Nat) (mode : ReadMode) (source : Source)
    (long : ¬ length * L.size < Region.byteLimit) :
    ∃ after, region L length mode source = (.error (.badHeader (.arrayLength length)), after) := by
  have size : Region.byteLength L length = .error (.badHeader (.arrayLength length)) :=
    if_neg long
  have copied : copy L length source = (.error (.badHeader (.arrayLength length)), source) := by
    unfold copy
    rw [size]
    rfl
  cases mode with
  | copy => exact ⟨source, copied⟩
  | borrow =>
    cases source with
    | stream reader position => exact ⟨_, copied⟩
    | mapped bytes position =>
      refine ⟨.mapped bytes position, ?_⟩
      change borrow L length bytes position = _
      unfold borrow Region.borrow
      rw [size]
      rfl

end

/-! ## Side by side -/

/-- How two sources are compared: which of them lend their bytes, and what the second has where
the first ends. -/
structure Setting where
  lends : Bool
  lends' : Bool
  more : List UInt8

/-- Two sources at one position, the second with more bytes. -/
structure SideBySide (w : Setting) (position : Nat) (rest : List UInt8)
    (source source' : Source) : Prop where
  first : source.Offers w.lends position rest
  second : source'.Offers w.lends' position (rest ++ w.more)

/-- What two readings come to, side by side. -/
inductive Matched (w : Setting) (R : α → β → Prop) :
    Except Error α × Source → Except Error β × Source → Prop where
  | ok {a : α} {b : β} {position : Nat} {rest : List UInt8} {after after' : Source}
      (related : R a b) (sources : SideBySide w position rest after after') :
      Matched w R (.ok a, after) (.ok b, after')
  | failed (cause : Error) (after after' : Source) :
      Matched w R (.error cause, after) (.error cause, after')
  | cut (longer : w.more ≠ []) (expected actual : Nat) (after : Source)
      (outcome : Except Error β × Source) :
      Matched w R (.error (.shortRead expected actual), after) outcome

/-- Two readings of sources side by side. -/
def Alike (w : Setting) (R : α → β → Prop) (x : Reading α) (y : Reading β) : Prop :=
  ∀ position rest source source', SideBySide w position rest source source' →
    Matched w R (x source) (y source')

/-- A reading that depends on its source only through the bytes ahead. -/
def Steady (x : Reading α) : Prop := ∀ w, Alike w Eq x x

variable {w : Setting} {R : α → β → Prop} {S : γ → δ → Prop}

/-- Requests that both sources can answer, or neither. -/
theorem Asked.matched {position size : Nat} {rest : List UInt8} {a : α} {b : β}
    {outcome : Except Error α × Source} {outcome' : Except Error β × Source}
    (first : Asked w.lends position rest size a outcome)
    (second : Asked w.lends' position (rest ++ w.more) size b outcome')
    (related : size ≤ rest.length → R a b) : Matched w R outcome outcome' := by
  cases first with
  | enough fits offers =>
    cases second with
    | enough _ offers' =>
      rw [List.drop_append_of_le_length fits] at offers'
      exact .ok (related fits) ⟨offers, offers'⟩
    | short _ excess =>
      rw [List.length_append] at excess
      omega
  | short after excess =>
    by_cases longer : w.more = []
    · rw [longer, List.append_nil] at second
      cases second with
      | enough fits => omega
      | short after' _ => exact .failed _ after after'
    · exact .cut longer size rest.length after outcome'

theorem Matched.bind {x : Reading α} {y : Reading β} {f : α → Reading γ} {g : β → Reading δ}
    {source source' : Source} (first : Matched w R (x source) (y source'))
    (second : ∀ a b position rest after after', x source = (.ok a, after) → R a b →
      SideBySide w position rest after after' → Matched w S (f a after) (g b after')) :
    Matched w S ((x >>= f) source) ((y >>= g) source') := by
  change Matched w S (Reading.bind x f source) (Reading.bind y g source')
  unfold Reading.bind
  generalize x source = outcome at first second ⊢
  generalize y source' = outcome' at first ⊢
  cases first with
  | ok related sources => exact second _ _ _ _ _ _ rfl related sources
  | failed cause after after' => exact .failed cause after after'
  | cut longer expected actual after => exact .cut longer expected actual after _

theorem Alike.bind {x : Reading α} {y : Reading β} {f : α → Reading γ} {g : β → Reading δ}
    (first : Alike w R x y) (second : ∀ a b, R a b → Alike w S (f a) (g b)) :
    Alike w S (x >>= f) (y >>= g) := by
  intro position rest source source' sides
  apply (first position rest source source' sides).bind
  intro a b _ _ _ _ _ related sources
  exact second a b related _ _ _ _ sources

theorem alike_pure {a : α} {b : β} (related : R a b) :
    Alike w R (pure a : Reading α) (pure b : Reading β) :=
  fun _ _ _ _ sides => .ok related sides

theorem alike_fail (cause : Error) : Alike w R (fail cause : Reading α) (fail cause : Reading β) :=
  fun _ _ _ _ _ => .failed cause _ _

/-! ## Plain readings -/

theorem steady_take (n : Nat) : (take n).Steady := by
  intro w position rest source source' sides
  apply (asked_take sides.first n).matched (asked_take sides.second n)
  intro fits
  rw [List.take_append_of_le_length fits]

/-- Both sources stand at one position, so both pass over as many bytes. -/
theorem steady_align (alignment : Nat) : (align alignment).Steady := by
  intro w position rest source source' sides
  simp only [align, sides.first.ahead.position_eq, sides.second.ahead.position_eq]
  cases paddingTo position alignment with
  | error cause => exact .failed cause source source'
  | ok pad =>
    apply (steady_take pad w position rest source source' sides).bind
    intro _ _ _ _ _ _ _ _ sources
    exact .ok rfl sources

theorem Plain.steady {x : Reading α} (plain : x.Plain) : x.Steady := by
  intro w
  induction plain with
  | pure a => exact alike_pure rfl
  | refuse proper => exact alike_fail _
  | take n => exact steady_take n w
  | align positive => exact steady_align _ w
  | bind _ _ first second =>
    apply first.bind
    rintro a _ rfl
    exact second a

/-! ## Arrays -/

/-- Arrays with the same values, borrowed or not. -/
def SameValues (region region' : Region α) : Prop := region.values = region'.values

/-- An array that starts where both modes allow it. -/
theorem alike_region_of_aligned (L : Layout α) (length : Nat) (mode mode' : ReadMode)
    {position : Nat} {rest : List UInt8} {source source' : Source}
    (sides : SideBySide w position rest source source')
    (aligned : mode = .borrow ∨ mode' = .borrow → position % L.alignment = 0) :
    Matched w SameValues (region L length mode source) (region L length mode' source') := by
  by_cases small : length * L.size < Region.byteLimit
  · apply (asked_region sides.first L length mode small fun h => aligned (Or.inl h)).matched
      (asked_region sides.second L length mode' small fun h => aligned (Or.inr h))
    intro fits
    change L.decodeArray length rest = L.decodeArray length (rest ++ w.more)
    rw [← L.decodeArray_take length (rest ++ w.more), List.take_append_of_le_length fits,
      L.decodeArray_take]
  · obtain ⟨after, long⟩ := region_of_long L length mode source small
    obtain ⟨after', long'⟩ := region_of_long L length mode' source' small
    rw [long, long']
    exact .failed _ after after'

theorem alike_copy (L : Layout α) (length : Nat) :
    Alike w SameValues (region L length .copy) (region L length .copy) := by
  intro position rest source source' sides
  apply alike_region_of_aligned L length .copy .copy sides
  rintro (h | h) <;> cases h

/-- Behind a padding an array may be borrowed from one source and copied from the other. -/
theorem alike_padded (aligned : Bool) (L : Layout α) (length : Nat) (mode mode' : ReadMode) :
    Alike w SameValues
      (Store.readPad aligned >>= fun _ => region L length (if aligned then mode else .copy))
      (Store.readPad aligned >>= fun _ => region L length (if aligned then mode' else .copy)) := by
  cases aligned with
  | false => exact alike_copy L length
  | true =>
    intro position rest source source' sides
    apply ((Store.plain_readPad true).steady w position rest source source' sides).bind
    intro _ _ place left after after' passed _ sources
    apply alike_region_of_aligned L length mode mode' sources
    intro _
    rw [← sources.first.ahead.position_eq]
    exact aligned_of_readPad L passed

end Reading
end Transducer
