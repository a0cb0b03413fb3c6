import Transducer.Proofs.TraitWord
/-!
# Known traits

A word that has one bit of a pair decides both, so the word of a question may be answered from the
declared word although bits of it are not set there. A survey sets one bit of every pair. Main
statements: a word decides the bits of a trait exactly if it gives some verdict on it
(`says_known_iff`), and the answers to all questions are those of a survey exactly if every declared
verdict is one that a survey finds (`hasAll_survey_iff_test_eq`).
-/
namespace Transducer

namespace TraitWord

variable {word : UInt64} {t : Trait} {verdict : Bool} {i : Nat}

/-! ## Which bits a word decides -/

theorem testBit_positive : positive.toNat.testBit i = true ↔ ∃ t : Trait, t.place true = i := by
  have bit (t : Trait) : t.yes.toNat = 2 ^ t.place true := t.toNat_bit true
  simp [positive, testBit_foldl_or, bit, Nat.testBit_two_pow, Trait.mem_all]

theorem testBit_negative : negative.toNat.testBit i = true ↔ ∃ t : Trait, t.place false = i := by
  have bit (t : Trait) : t.no.toNat = 2 ^ t.place false := t.toNat_bit false
  simp [negative, testBit_foldl_or, bit, Nat.testBit_two_pow, Trait.mem_all]

/-- Above the bits of traits that hold are those of the same traits that fail. -/
theorem exists_place_of_shiftLeft
    (set : ((word &&& positive) <<< 1).toNat.testBit i = true) :
    ∃ t : Trait, i = t.place false ∧ Says word t true := by
  rw [testBit_shiftLeft_one, UInt64.toNat_and, Nat.testBit_and] at set
  simp only [Bool.and_eq_true, decide_eq_true_iff, testBit_positive] at set
  obtain ⟨_, above, there, t, next⟩ := set
  rw [← next] at there
  refine ⟨t, ?_, there⟩
  change i = t.place true + 1
  omega

theorem exists_place_of_shiftRight
    (set : ((word &&& negative) >>> 1).toNat.testBit i = true) :
    ∃ t : Trait, i = t.place true ∧ Says word t false := by
  rw [testBit_shiftRight_one, UInt64.toNat_and, Nat.testBit_and, Bool.and_eq_true,
    testBit_negative] at set
  obtain ⟨there, t, next⟩ := set
  rw [← next] at there
  refine ⟨t, ?_, there⟩
  change t.place true + 1 = i + 1 at next
  omega

theorem testBit_plain : plain.toNat.testBit i = true ↔ i < 3 := by
  rw [show plain.toNat = 2 ^ 3 - 1 from rfl, Nat.testBit_two_pow_sub_one, decide_eq_true_iff]

/-- A bit that a word decides is a plain one or belongs to a trait on which the word gives some
verdict. -/
theorem exists_place_of_known (decided : (known word).toNat.testBit i = true) :
    i < 3 ∨ ∃ t : Trait, ∃ verdict given, i = t.place verdict ∧ Says word t given := by
  unfold known at decided
  simp only [UInt64.toNat_or, Nat.testBit_or, Bool.or_eq_true] at decided
  obtain ((low | same) | above) | below := decided
  · exact Or.inl (testBit_plain.1 low)
  · rw [UInt64.toNat_and, Nat.testBit_and, Bool.and_eq_true] at same
    obtain ⟨t, verdict, rfl⟩ := exists_place_of_paired same.2
    exact Or.inr ⟨t, verdict, verdict, rfl, same.1⟩
  · obtain ⟨t, place, said⟩ := exists_place_of_shiftLeft above
    exact Or.inr ⟨t, false, true, place, said⟩
  · obtain ⟨t, place, said⟩ := exists_place_of_shiftRight below
    exact Or.inr ⟨t, true, false, place, said⟩

/-- A word decides the bits of a trait exactly if it gives some verdict on it. -/
theorem says_known_iff : Says (known word) t verdict ↔ ∃ given, Says word t given := by
  constructor
  · intro decided
    cases exists_place_of_known decided with
    | inl low =>
      unfold Trait.place at low
      omega
    | inr found =>
      obtain ⟨u, _, given, place, said⟩ := found
      rw [(Trait.place_injective place).1]
      exact ⟨given, said⟩
  · intro found
    obtain ⟨given, said⟩ := found
    exact says_known said verdict

theorem hasAll_and_paired_iff {other : UInt64} : hasAll word (other &&& paired) = true
    ↔ ∀ t verdict, Says other t verdict → Says word t verdict := by
  unfold hasAll
  rw [beq_iff_eq]
  constructor
  · intro all t verdict said
    have listed : Says (other &&& paired) t verdict := says_and.2 ⟨said, says_paired t verdict⟩
    rw [← all] at listed
    exact (says_and.1 listed).1
  · intro each
    refine and_eq_of_says (by simp [UInt64.and_assoc]) fun t verdict said => ?_
    exact each t verdict (says_and.1 said).1

end TraitWord

/-! ## Answers from the declared word -/

namespace View

open TraitWord

variable {v : View} {mask : UInt64}

/-- Where a true verdict is declared, the declared bits are those that are found. -/
theorem says_properties_iff
    (declared : ∀ t verdict, Says v.properties t verdict → Says v.survey t verdict) {t : Trait}
    {given : Bool} (said : Says v.properties t given) (verdict : Bool) :
    Says v.properties t verdict ↔ Says v.survey t verdict := by
  refine ⟨declared t verdict, ?_⟩
  intro found
  have truth := (says_ofVerdict _ t given).1 (declared t given said)
  have same := (says_ofVerdict _ t verdict).1 found
  rw [← same, truth]
  exact said

theorem testBit_survey {i : Nat} (low : i < 3) : v.survey.toNat.testBit i = false :=
  testBit_ofVerdict _ (by omega)

/-- On the bits that it decides, a true word is what a survey finds. -/
theorem testBit_of_known
    (declared : ∀ t verdict, Says v.properties t verdict → Says v.survey t verdict) {i : Nat}
    (decided : (known v.properties).toNat.testBit i = true) :
    v.properties.toNat.testBit i = (v.survey ||| (v.properties &&& plain)).toNat.testBit i := by
  rw [UInt64.toNat_or, UInt64.toNat_and, Nat.testBit_or, Nat.testBit_and]
  cases exists_place_of_known decided with
  | inl low => simp [testBit_survey low, testBit_plain.2 low]
  | inr found =>
    obtain ⟨t, verdict, given, rfl, said⟩ := found
    have absent : plain.toNat.testBit (t.place verdict) = false :=
      Bool.eq_false_iff.2 (not_says_plain t verdict)
    rw [absent, Bool.and_false, Bool.or_false]
    exact Bool.eq_iff_iff.2 (says_properties_iff declared said verdict)

theorem test_of_known (decided : known v.properties &&& mask = mask) :
    v.test mask = v.properties &&& mask :=
  if_pos (beq_iff_eq.2 decided)

end View

/-- Every question is answered as by a survey joined with the declared plain bits exactly if the
declared verdicts are among those that a survey finds, whether the declared word decides all that is
asked, some of it or nothing. -/
theorem hasAll_survey_iff_test_eq (v : View) :
    TraitWord.hasAll v.survey (v.properties &&& TraitWord.paired) = true
      ↔ ∀ mask, v.test mask
        = (v.survey ||| (v.properties &&& TraitWord.plain)) &&& mask := by
  rw [TraitWord.hasAll_and_paired_iff]
  constructor
  · intro declared mask
    by_cases decided : TraitWord.known v.properties &&& mask = mask
    · rw [View.test_of_known decided]
      refine TraitWord.eq_of_testBit fun i => ?_
      rw [UInt64.toNat_and, UInt64.toNat_and, Nat.testBit_and, Nat.testBit_and]
      cases asked : mask.toNat.testBit i with
      | false => rw [Bool.and_false, Bool.and_false]
      | true =>
        have bit := congrArg (fun word : UInt64 => word.toNat.testBit i) decided
        rw [View.testBit_of_known declared]
        simpa [asked] using bit
    · exact if_neg (by simpa using decided)
  · intro answers t verdict said
    have listed : TraitWord.Says (v.properties &&& TraitWord.paired) t verdict :=
      TraitWord.says_and.2 ⟨said, TraitWord.says_paired t verdict⟩
    have answer : v.test (v.properties &&& TraitWord.paired) = v.properties &&& TraitWord.paired :=
      View.test_of_declared (by simp [← UInt64.and_assoc]) (by simp [UInt64.and_assoc])
    rw [← answer, answers] at listed
    cases TraitWord.says_or.1 (TraitWord.says_and.1 listed).1 with
    | inl found => exact found
    | inr impossible =>
      exact absurd (TraitWord.says_and.1 impossible).2 (TraitWord.not_says_plain t verdict)

end Transducer
