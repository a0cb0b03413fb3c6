import Transducer.View
/-!
# What a trait word says

Each trait owns two bits of a word, one for each verdict, and reading these bits is all that a
caller ever does with a word. The rules for `&&&`, `|||` and the word of a verdict are therefore
stated on the bits and not on the arithmetic of words; from the bits one gets back to words by
`eq_of_testBit` and, for masks of traits, by `and_eq_of_says`. Main statements: a verdict decides
its trait (`says_known`), and whatever a view answers to a question was either declared by it or
found by the survey (`says_of_test`).
-/
namespace Transducer

namespace Trait

/-- The place of the bit for a verdict on a trait. -/
def place (t : Trait) (verdict : Bool) : Nat := 16 + 2 * t.rank + (!verdict).toNat

/-- The bit for a verdict on a trait. -/
def bit (t : Trait) (verdict : Bool) : UInt64 := if verdict then t.yes else t.no

theorem toNat_bit (t : Trait) (verdict : Bool) : (t.bit verdict).toNat = 2 ^ t.place verdict := by
  cases verdict <;> cases t <;> decide

theorem rank_injective {t u : Trait} (h : t.rank = u.rank) : t = u := by
  have listed (t : Trait) : all[t.rank]? = some t := by cases t <;> rfl
  have same : some t = some u := by rw [← listed t, ← listed u, h]
  exact Option.some.inj same

theorem place_injective {t u : Trait} {a b : Bool} (h : t.place a = u.place b) :
    t = u ∧ a = b := by
  have ha := Bool.toNat_le (!a)
  have hb := Bool.toNat_le (!b)
  unfold place at h
  have verdicts : (!a).toNat = (!b).toNat := by omega
  refine ⟨rank_injective (by omega), ?_⟩
  cases a <;> cases b <;> simp_all

end Trait

namespace TraitWord

/-- A word gives a verdict on a trait. It may give both verdicts, or none. -/
def Says (word : UInt64) (t : Trait) (verdict : Bool) : Prop :=
  word.toNat.testBit (t.place verdict) = true

instance (word : UInt64) (t : Trait) (verdict : Bool) : Decidable (Says word t verdict) :=
  inferInstanceAs (Decidable (_ = _))

theorem says_and {word other : UInt64} {t : Trait} {verdict : Bool} :
    Says (word &&& other) t verdict ↔ Says word t verdict ∧ Says other t verdict := by
  simp [Says, UInt64.toNat_and]

theorem says_or {word other : UInt64} {t : Trait} {verdict : Bool} :
    Says (word ||| other) t verdict ↔ Says word t verdict ∨ Says other t verdict := by
  simp [Says, UInt64.toNat_or]

theorem says_bit {t u : Trait} {a b : Bool} : Says (u.bit b) t a ↔ u = t ∧ b = a := by
  rw [Says, Trait.toNat_bit, Nat.testBit_two_pow, decide_eq_true_iff]
  constructor
  · exact Trait.place_injective
  · rintro ⟨rfl, rfl⟩
    rfl

/-- The bits below those of the traits give no verdict. -/
theorem not_says_of_small {word : UInt64} (small : word.toNat < 0x10000) (t : Trait)
    (verdict : Bool) : ¬ Says word t verdict := by
  intro said
  have above : 16 ≤ t.place verdict := by
    unfold Trait.place
    omega
  have below : word.toNat < 2 ^ t.place verdict :=
    Nat.lt_of_lt_of_le small (Nat.pow_le_pow_right (by decide : 0 < 2) above)
  rw [Says, Nat.testBit_lt_two_pow below] at said
  cases said

theorem not_says_expanded (t : Trait) (verdict : Bool) : ¬ Says expanded t verdict :=
  not_says_of_small (by decide) t verdict

theorem not_says_mutable (t : Trait) (verdict : Bool) : ¬ Says mutable t verdict :=
  not_says_of_small (by decide) t verdict

theorem not_says_plain (t : Trait) (verdict : Bool) : ¬ Says plain t verdict :=
  not_says_of_small (by decide) t verdict

theorem testBit_foldl_or (word : UInt64) (f : Trait → UInt64) (ts : List Trait) (i : Nat) :
    (ts.foldl (fun word u => word ||| f u) word).toNat.testBit i = true
      ↔ word.toNat.testBit i = true ∨ ∃ u ∈ ts, (f u).toNat.testBit i = true := by
  induction ts generalizing word with
  | nil => simp
  | cons u ts ih =>
    rw [List.foldl_cons, ih, UInt64.toNat_or, Nat.testBit_or, Bool.or_eq_true, or_assoc]
    simp

/-- No verdict on a trait is in the three lowest bits. -/
theorem testBit_ofVerdict (holds : Trait → Bool) {i : Nat} (low : i < 16) :
    (ofVerdict holds).toNat.testBit i = false := by
  refine Bool.eq_false_iff.2 fun set => ?_
  rcases (testBit_foldl_or _ _ _ _).1 set with nothing | ⟨u, _, there⟩
  · simp at nothing
  · change (u.bit (holds u)).toNat.testBit i = true at there
    rw [Trait.toNat_bit, Nat.testBit_two_pow, decide_eq_true_iff, Trait.place] at there
    omega

/-- The word of a verdict says what the verdict says. -/
theorem says_ofVerdict (holds : Trait → Bool) (t : Trait) (verdict : Bool) :
    Says (ofVerdict holds) t verdict ↔ holds t = verdict := by
  rw [Says, ofVerdict, testBit_foldl_or]
  constructor
  · rintro (nothing | ⟨u, _, said⟩)
    · exact absurd nothing (by simp)
    · change Says (u.bit (holds u)) t verdict at said
      obtain ⟨rfl, h⟩ := says_bit.1 said
      exact h
  · intro h
    exact Or.inr ⟨t, t.mem_all, says_bit.2 ⟨rfl, h⟩⟩

/-- Words with equal bits are equal. -/
theorem eq_of_testBit {word other : UInt64}
    (same : ∀ i, word.toNat.testBit i = other.toNat.testBit i) : word = other :=
  UInt64.toNat_inj.1 (Nat.eq_of_testBit_eq same)

/-- The bit of a trait that holds picks that verdict out of a word. -/
theorem and_yes (word : UInt64) (t : Trait) :
    word &&& t.yes = if Says word t true then t.yes else 0 := by
  have bit : t.yes.toNat = 2 ^ t.place true := t.toNat_bit true
  refine eq_of_testBit fun i => ?_
  rw [UInt64.toNat_and, Nat.testBit_and, bit, Nat.testBit_two_pow]
  by_cases place : t.place true = i
  · subst place
    split
    · rename_i said
      rw [said, bit, Nat.testBit_two_pow]
      rfl
    · rename_i silent
      rw [Bool.eq_false_iff.2 silent, UInt64.toNat_zero, Nat.zero_testBit]
      rfl
  · split <;> simp [bit, place]

theorem yes_ne_zero (t : Trait) : t.yes ≠ 0 := by
  cases t <;> decide

theorem hasAll_yes_iff {word : UInt64} {t : Trait} :
    hasAll word t.yes = true ↔ Says word t true := by
  unfold hasAll
  rw [and_yes, beq_iff_eq]
  split <;> simp [(yes_ne_zero t).symm, *]

theorem says_paired (t : Trait) (verdict : Bool) : Says paired t verdict := by
  cases verdict <;> cases t <;> decide

/-- The verdicts of a word are among the bits of the traits. -/
theorem ofVerdict_and_paired (holds : Trait → Bool) :
    ofVerdict holds &&& paired = ofVerdict holds := by
  refine eq_of_testBit fun i => ?_
  rw [UInt64.toNat_and, Nat.testBit_and, Bool.and_eq_left_iff_imp]
  intro set
  rcases (testBit_foldl_or _ _ _ _).1 set with nothing | ⟨u, _, there⟩
  · simp at nothing
  · change (u.bit (holds u)).toNat.testBit i = true at there
    rw [Trait.toNat_bit, Nat.testBit_two_pow, decide_eq_true_iff] at there
    rw [← there]
    exact says_paired u (holds u)

theorem ofVerdict_and_copied (holds : Trait → Bool) :
    ofVerdict holds &&& copied = ofVerdict holds := by
  have inside : paired &&& copied = paired := by decide
  rw [← ofVerdict_and_paired, UInt64.and_assoc, inside]

theorem exists_place_of_paired {i : Nat} (set : paired.toNat.testBit i = true) :
    ∃ t : Trait, ∃ verdict, i = t.place verdict := by
  have listed : ∀ i < 64, paired.toNat.testBit i = true →
      ∃ t ∈ Trait.all, ∃ verdict, i = t.place verdict := by
    decide
  have below : i < 64 := by
    refine Nat.lt_of_not_le fun above => ?_
    rw [Nat.testBit_lt_two_pow (Nat.lt_of_lt_of_le paired.toNat_lt
      (Nat.pow_le_pow_right (by decide) above))] at set
    cases set
  obtain ⟨t, _, verdict, place⟩ := listed i below set
  exact ⟨t, verdict, place⟩

/-- A word with all verdicts of a mask has the bits of the mask. -/
theorem and_eq_of_says {word mask : UInt64} (traits : mask &&& paired = mask)
    (said : ∀ t verdict, Says mask t verdict → Says word t verdict) : word &&& mask = mask := by
  refine eq_of_testBit fun i => ?_
  rw [UInt64.toNat_and, Nat.testBit_and, Bool.and_eq_right_iff_imp]
  intro set
  have pair : paired.toNat.testBit i = true := by
    rw [← traits, UInt64.toNat_and, Nat.testBit_and, Bool.and_eq_true] at set
    exact set.2
  obtain ⟨t, verdict, rfl⟩ := exists_place_of_paired pair
  exact said t verdict set

theorem testBit_shiftLeft_one (word : UInt64) (i : Nat) : (word <<< 1).toNat.testBit i
    = (decide (i < 64) && (decide (1 ≤ i) && word.toNat.testBit (i - 1))) := by
  rw [UInt64.toNat_shiftLeft, Nat.testBit_mod_two_pow, show (1 : UInt64).toNat % 64 = 1 from rfl,
    Nat.testBit_shiftLeft]

theorem testBit_shiftRight_one (word : UInt64) (i : Nat) :
    (word >>> 1).toNat.testBit i = word.toNat.testBit (i + 1) := by
  rw [UInt64.toNat_shiftRight, show (1 : UInt64).toNat % 64 = 1 from rfl, Nat.testBit_shiftRight,
    Nat.add_comm]

theorem says_shiftLeft {word : UInt64} {t : Trait} (said : Says word t true) :
    Says (word <<< 1) t false := by
  have place : t.place false = t.place true + 1 := rfl
  have below : t.place false < 64 := by
    cases t <;> decide
  unfold Says at said ⊢
  rw [testBit_shiftLeft_one, decide_eq_true below, Bool.true_and, place, Nat.add_sub_cancel, said]
  simp

theorem says_shiftRight {word : UInt64} {t : Trait} (said : Says word t false) :
    Says (word >>> 1) t true := by
  have place : t.place false = t.place true + 1 := rfl
  unfold Says at said ⊢
  rw [testBit_shiftRight_one, ← place, said]

/-- A verdict decides its trait, in either way. -/
theorem says_known {word : UInt64} {t : Trait} {verdict : Bool} (said : Says word t verdict)
    (other : Bool) : Says (known word) t other := by
  have positive_ : Says positive t true := by
    cases t <;> decide
  have negative_ : Says negative t false := by
    cases t <;> decide
  unfold known
  rw [says_or, says_or, says_or]
  cases verdict with
  | true =>
    cases other with
    | true => exact Or.inl (Or.inl (Or.inr (says_and.2 ⟨said, says_paired t true⟩)))
    | false => exact Or.inl (Or.inr (says_shiftLeft (says_and.2 ⟨said, positive_⟩)))
  | false =>
    cases other with
    | true => exact Or.inr (says_shiftRight (says_and.2 ⟨said, negative_⟩))
    | false => exact Or.inl (Or.inl (Or.inr (says_and.2 ⟨said, says_paired t false⟩)))

/-- A word decides all that it says. -/
theorem known_and_eq {word mask : UInt64} (said : word &&& mask = mask)
    (traits : mask &&& paired = mask) : known word &&& mask = mask := by
  refine and_eq_of_says traits fun t verdict asked => ?_
  rw [← said] at asked
  exact says_known (says_and.1 asked).1 verdict

end TraitWord

namespace View

open TraitWord

/-- A verdict in an answer was declared or found, whichever way the question was settled. -/
theorem says_of_test {v : View} {mask : UInt64} {t : Trait} {verdict : Bool}
    (h : Says (v.test mask) t verdict) :
    Says v.properties t verdict ∨ v.machine.holds t = verdict := by
  unfold test at h
  split at h
  · exact Or.inl (says_and.1 h).1
  · rcases says_or.1 (says_and.1 h).1 with found | declared
    · exact Or.inr ((says_ofVerdict _ t verdict).1 found)
    · exact Or.inl (says_and.1 declared).1

/-- A view is asked for what it declares. -/
theorem test_of_declared {v : View} {mask : UInt64} (said : v.properties &&& mask = mask)
    (traits : mask &&& paired = mask) : v.test mask = mask := by
  unfold View.test
  rw [known_and_eq said traits, if_pos (beq_self_eq_true mask), said]

end View
end Transducer
