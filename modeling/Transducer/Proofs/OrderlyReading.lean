import Transducer.Proofs.Continuations
import Transducer.Proofs.Outcome
/-!
# Readings keep to their source

A source is sound when its position lies inside its bytes and its failures come from outside. A
reading of a sound source leaves a sound one, goes forth only, uses up no more than there was, and
whatever it refuses it refuses because of the bytes found: no call outside its domain is made, and
no array is asked for in the wrong place (`Proper`). This holds of plain readings by induction, and
of arrays because a padding precedes those that are borrowed (`orderly_padded`). Arrays that have
been read are not larger than the source.
-/
namespace Transducer

namespace Source

/-- The position lies inside the bytes; a reader fails for reasons of its own. -/
def Sound : Source → Prop
  | .stream reader _ => ∀ cause, reader.failure = some cause → cause.isMishap = false
  | .mapped bytes position => position ≤ bytes.length

/-- The number of bytes ahead. -/
def left : Source → Nat
  | .stream reader _ => (Delivery.content reader.pending).length
  | .mapped bytes position => bytes.length - position

/-- A source as a reading of another one leaves it. -/
structure Follows (source after : Source) : Prop where
  sound : after.Sound
  forth : source.position ≤ after.position
  within : after.position + after.left ≤ source.position + source.left

theorem Sound.follows {source : Source} (sound : source.Sound) : source.Follows source :=
  ⟨sound, Nat.le_refl _, Nat.le_refl _⟩

theorem Follows.trans {source middle after : Source} (first : source.Follows middle)
    (second : middle.Follows after) : source.Follows after :=
  ⟨second.sound, Nat.le_trans first.forth second.forth, Nat.le_trans second.within first.within⟩

theorem Follows.left_le {source after : Source} (follows : source.Follows after) :
    after.left ≤ source.left := by
  have forth := follows.forth
  have within := follows.within
  omega

theorem sound_ofMapping (bytes : List UInt8) : (ofMapping bytes).Sound := Nat.zero_le _

end Source

namespace Reading

variable {α β : Type} {source : Source}

/-- What a reading of a sound source comes to. -/
structure Proper (source : Source) (outcome : Except Error α × Source) : Prop where
  refuses : ∀ cause, outcome.1 = .error cause → cause.isMishap = false
  follows : source.Follows outcome.2

/-- A reading that keeps to its source. -/
def Orderly (x : Reading α) : Prop := ∀ source, source.Sound → Proper source (x source)

theorem proper_ok {a : α} {after : Source} (follows : source.Follows after) :
    Proper source ((.ok a, after) : Except Error α × Source) := by
  refine ⟨?_, follows⟩
  rintro _ ⟨⟩

theorem proper_error {cause : Error} {after : Source} (proper : cause.isMishap = false)
    (follows : source.Follows after) :
    Proper source ((.error cause, after) : Except Error α × Source) := by
  refine ⟨?_, follows⟩
  rintro _ refused
  cases refused
  exact proper

theorem Proper.bind {x : Reading α} {f : α → Reading β} (first : Proper source (x source))
    (second : ∀ a after, x source = (.ok a, after) → after.Sound → Proper after (f a after)) :
    Proper source ((x >>= f) source) := by
  change Proper source (Reading.bind x f source)
  unfold Reading.bind
  obtain ⟨refuses, follows⟩ := first
  cases read : x source with
  | mk outcome after =>
    rw [read] at refuses follows
    cases outcome with
    | error cause => exact proper_error (refuses cause rfl) follows
    | ok a =>
      have step := second a after read follows.sound
      exact ⟨step.refuses, follows.trans step.follows⟩

theorem Orderly.bind {x : Reading α} {f : α → Reading β} (first : x.Orderly)
    (second : ∀ a, (f a).Orderly) : (x >>= f).Orderly :=
  fun source sound => (first source sound).bind fun a after _ sound => second a after sound

theorem orderly_take (n : Nat) : (take n).Orderly := by
  intro source sound
  cases source with
  | stream reader position =>
    have got : (Delivery.fill n reader.pending).1.length
        = min n (Delivery.content reader.pending).length := by
      rw [Delivery.fill_fst, List.length_take]
    have rest : (Delivery.content (Delivery.fill n reader.pending).2).length
        = (Delivery.content reader.pending).length - n := by
      rw [Delivery.content_fill_snd, List.length_drop]
    have follows (read : Nat) (few : read ≤ min n (Delivery.content reader.pending).length) :
        (Source.stream reader position).Follows
          (.stream { reader with pending := (Delivery.fill n reader.pending).2 }
            (position + read)) := by
      refine ⟨sound, Nat.le_add_right _ _, ?_⟩
      simp only [Source.position, Source.left, rest]
      omega
    unfold take
    simp only
    split
    · rename_i enough
      exact proper_ok (follows n (by omega))
    · split
      · rename_i cause failed
        exact proper_error (sound cause failed) (follows 0 (Nat.zero_le _))
      · exact proper_error rfl (follows _ (Nat.le_of_eq got))
  | mapped bytes position =>
    have inside : position ≤ bytes.length := sound
    have follows (read : Nat) (few : read ≤ bytes.length - position) :
        (Source.mapped bytes position).Follows (.mapped bytes (position + read)) := by
      refine ⟨?_, Nat.le_add_right _ _, ?_⟩
      · change position + read ≤ bytes.length
        omega
      · simp only [Source.position, Source.left]
        omega
    unfold take
    simp only
    split
    · rename_i enough
      exact proper_ok (follows n enough)
    · exact proper_error rfl (follows _ (Nat.le_refl _))

theorem orderly_align {alignment : Nat} (positive : 0 < alignment) :
    (align alignment).Orderly := by
  intro source sound
  have pad : paddingTo source.position alignment = .ok (padding source.position alignment) :=
    if_neg (Nat.ne_of_gt positive)
  unfold align
  rw [pad]
  exact (orderly_take _ source sound).bind fun _ _ _ sound => proper_ok sound.follows

theorem Plain.orderly {x : Reading α} (plain : x.Plain) : x.Orderly := by
  induction plain with
  | pure a => exact fun _ sound => proper_ok sound.follows
  | refuse proper => exact fun _ sound => proper_error proper sound.follows
  | take n => exact orderly_take n
  | align positive => exact orderly_align positive
  | bind _ _ first second => exact first.bind second

/-! ## Arrays -/

theorem follows_borrow (L : Layout α) (length : Nat) {bytes : List UInt8} {position : Nat}
    (inside : position ≤ bytes.length) :
    (Source.mapped bytes position).Follows (borrow L length bytes position).2 := by
  unfold borrow
  cases lent : Region.borrow L bytes position length with
  | error cause => exact Source.Sound.follows inside
  | ok region =>
    obtain ⟨enough, _⟩ := eq_of_borrow lent
    refine ⟨?_, Nat.le_add_right _ _, ?_⟩
    · change position + length * L.size ≤ bytes.length
      omega
    · simp only [Source.position, Source.left]
      omega

/-- Borrowing where the array may start. -/
theorem refuses_borrow (L : Layout α) (length : Nat) {bytes : List UInt8} {position : Nat}
    (inside : position ≤ bytes.length) (aligned : position % L.alignment = 0) {cause : Error}
    (refused : (borrow L length bytes position).1 = .error cause) : cause.isMishap = false := by
  unfold borrow Region.borrow Region.byteLength at refused
  by_cases small : length * L.size < Region.byteLimit
  · by_cases enough : bytes.length - position < length * L.size
    · simp only [bind, Except.bind, if_pos small, if_pos enough, throw, throwThe,
        MonadExceptOf.throw] at refused
      cases refused
      rfl
    · simp only [bind, Except.bind, if_pos small, if_neg enough, if_neg (Nat.not_lt.2 inside),
        aligned, ne_eq, not_true_eq_false, if_false, pure, Except.pure] at refused
      cases refused
  · simp only [bind, Except.bind, if_neg small] at refused
    cases refused
    rfl

/-- Whatever array is asked for, and wherever, the source goes forth only. -/
theorem follows_region (L : Layout α) (length : Nat) (mode : ReadMode) (sound : source.Sound) :
    source.Follows (region L length mode source).2 := by
  cases mode with
  | copy => exact ((plain_copy L length).orderly source sound).follows
  | borrow =>
    cases source with
    | stream reader position => exact ((plain_copy L length).orderly _ sound).follows
    | mapped bytes position => exact follows_borrow L length sound

theorem proper_region (L : Layout α) (length : Nat) (mode : ReadMode) (sound : source.Sound)
    (aligned : mode = .borrow → source.position % L.alignment = 0) :
    Proper source (region L length mode source) := by
  refine ⟨?_, follows_region L length mode sound⟩
  intro cause refused
  cases mode with
  | copy => exact ((plain_copy L length).orderly source sound).refuses cause refused
  | borrow =>
    cases source with
    | stream reader position => exact ((plain_copy L length).orderly _ sound).refuses cause refused
    | mapped bytes position => exact refuses_borrow L length sound (aligned rfl) refused

/-- An array behind its padding, borrowed only in aligned files. -/
theorem orderly_padded (aligned : Bool) (L : Layout α) (length : Nat) (mode : ReadMode) :
    (Store.readPad aligned >>= fun _ =>
      region L length (if aligned then mode else .copy)).Orderly := by
  intro source sound
  apply ((Store.plain_readPad aligned).orderly source sound).bind
  intro _ after passed sound
  apply proper_region L length _ sound
  cases aligned with
  | false => exact fun borrowed => nomatch borrowed
  | true =>
    intro _
    exact aligned_of_readPad L passed

end Reading
end Transducer
