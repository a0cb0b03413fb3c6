import Mathlib.Data.Option.NAry
import Mathlib.Order.MinMax
import Transducer.Proofs.Agreement
/-!
# The least of two weights

The tropical sum of two weights is the smaller one, the second where neither is smaller. Members of
the algebras are ranked by cost and other patterns have no rank; then the rank of a sum is the
minimum of the ranks, and there is none where an operand has none (`rank_least`). Weights match when
they are equal as numbers or both outside the algebras, that is, when they have the same rank
(`matches_iff`), so sums obey the laws of the minimum up to matching. Ranks do not tell the two
zeros apart; that a sum is one of its operands as a pattern (`least_eq_or`) is a fact of its own.
Main statement: the tropical sum is idempotent and chooses between its operands, as its algebra
declares, and is lawful on all patterns (`tropical_plus_selects_least`).
-/
namespace Transducer

namespace Weight

variable {a b : Weight}

/-- The place of a member in the order of costs. -/
def rank (a : Weight) : Option Int := if a.isMember then some a.value.key else none

theorem rank_of_isMember (member : a.isMember = true) : a.rank = some a.value.key :=
  if_pos member

theorem rank_eq_none_iff : a.rank = none ↔ a.isMember = false := by
  simp [rank]

theorem rank_eq_some_iff {key : Int} :
    a.rank = some key ↔ a.isMember = true ∧ a.value.key = key := by
  simp [rank]

/-- Equal as numbers, or both outside the algebras. -/
def Matches (a b : Weight) : Prop :=
  a.same b = true ∨ (a.isMember = false ∧ b.isMember = false)

theorem rank_eq_of_same (equal : a.same b = true) : a.rank = b.rank := by
  obtain ⟨number, other, keys⟩ := Binary32.equals_iff.1 equal
  have members : a.isMember = b.isMember := by
    rw [Bool.eq_iff_iff, isMember_iff, isMember_iff, number, other, keys]
  rw [rank, rank, members, keys]

theorem matches_iff : a.Matches b ↔ a.rank = b.rank := by
  constructor
  · intro alike
    rcases alike with equal | ⟨outside, other⟩
    · exact rank_eq_of_same equal
    · rw [rank_eq_none_iff.2 outside, rank_eq_none_iff.2 other]
  · intro ranks
    cases place : a.rank with
    | none => exact Or.inr ⟨rank_eq_none_iff.1 place, rank_eq_none_iff.1 (ranks ▸ place)⟩
    | some key =>
      obtain ⟨member, first⟩ := rank_eq_some_iff.1 place
      obtain ⟨other, second⟩ := rank_eq_some_iff.1 (ranks ▸ place)
      exact Or.inl (Binary32.equals_iff.2
        ⟨not_isNaN_of_isMember member, not_isNaN_of_isMember other, first.trans second.symm⟩)

/-! ## Sums -/

theorem least_of_isMember (ha : a.isMember = true) (hb : b.isMember = true) :
    least a b = if a.value.key < b.value.key then a else b := by
  have smaller : a.value.less b.value = true ↔ a.value.key < b.value.key := by
    simp [Binary32.less_iff, not_isNaN_of_isMember ha, not_isNaN_of_isMember hb]
  simp [least, ha, hb, smaller]

theorem least_of_not_isMember (outside : a.isMember = false ∨ b.isMember = false) :
    least a b = bad := by
  rw [least, if_pos (by simpa using outside)]

theorem least_eq_or (ha : a.isMember = true) (hb : b.isMember = true) :
    least a b = a ∨ least a b = b := by
  rw [least_of_isMember ha hb]
  exact ite_eq_or_eq ..

theorem isMember_least (ha : a.isMember = true) (hb : b.isMember = true) :
    (least a b).isMember = true := by
  rcases least_eq_or ha hb with first | second
  · rwa [first]
  · rwa [second]

theorem key_least (ha : a.isMember = true) (hb : b.isMember = true) :
    (least a b).value.key = min a.value.key b.value.key := by
  rw [least_of_isMember ha hb]
  split
  next below => exact (min_eq_left (Int.le_of_lt below)).symm
  next above => exact (min_eq_right (Int.not_lt.1 above)).symm

theorem rank_least : (least a b).rank = Option.map₂ min a.rank b.rank := by
  cases ha : a.isMember with
  | false =>
    rw [least_of_not_isMember (Or.inl ha), rank_eq_none_iff.2 ha]
    rfl
  | true =>
    cases hb : b.isMember with
    | false =>
      rw [least_of_not_isMember (Or.inr hb), rank_eq_none_iff.2 hb, Option.map₂_none_right]
      rfl
    | true =>
      rw [rank_of_isMember (isMember_least ha hb), rank_of_isMember ha, rank_of_isMember hb,
        key_least ha hb]
      rfl

theorem isMember_least_eq_false_iff :
    (least a b).isMember = false ↔ a.isMember = false ∨ b.isMember = false := by
  simp only [← rank_eq_none_iff, rank_least, Option.map₂_eq_none_iff]

theorem least_atMost (ha : a.isMember = true) (hb : b.isMember = true) :
    (least a b).value.atMost a.value = true ∧ (least a b).value.atMost b.value = true := by
  have number := not_isNaN_of_isMember (isMember_least ha hb)
  rw [Binary32.atMost_iff, Binary32.atMost_iff, key_least ha hb]
  exact ⟨⟨number, not_isNaN_of_isMember ha, min_le_left ..⟩,
    number, not_isNaN_of_isMember hb, min_le_right ..⟩

theorem least_comm (a b : Weight) : (least a b).Matches (least b a) := by
  rw [matches_iff, rank_least, rank_least]
  exact Option.map₂_comm min_comm

theorem least_assoc (a b c : Weight) : (least (least a b) c).Matches (least a (least b c)) := by
  rw [matches_iff, rank_least, rank_least, rank_least, rank_least]
  exact Option.map₂_assoc min_assoc

theorem least_self (member : a.isMember = true) : least a a = a := by
  rw [least_of_isMember member member, ite_self]

/-! ## The weight of no path -/

/-- No cost is above that of no path. -/
theorem key_le_zero (member : a.isMember = true) : a.value.key ≤ zero.value.key := by
  have number := not_isNaN_of_isMember member
  have infinite : zero.value.key = Binary32.infiniteMagnitude := by decide
  rw [Binary32.isNaN, decide_eq_false_iff_not] at number
  rw [infinite, Binary32.key]
  split <;> omega

theorem least_zero (member : a.isMember = true) : least a zero = a := by
  rw [least_of_isMember member (by decide)]
  split
  next => rfl
  next above =>
    -- The sum is `zero` here, so `a` has to be infinite as a pattern and not only as a number.
    have equal : a.value.key = zero.value.key :=
      Int.le_antisymm (key_le_zero member) (Int.not_lt.1 above)
    have number := not_isNaN_of_isMember member
    exact (eq_zero_of_isZero (Binary32.equals_iff.2 ⟨number, by decide, equal⟩)).symm

theorem zero_least (member : a.isMember = true) : least zero a = a := by
  rw [least_of_isMember (by decide) member]
  exact if_neg (Int.not_lt.2 (key_le_zero member))

theorem times_zero (member : a.isMember = true) : times a zero = zero ∧ times zero a = zero := by
  have infinite : zero.value.equals Binary32.infinity = true := by decide
  have neutral : zero.isMember = true := by decide
  constructor <;> simp [times, member, neutral, infinite]

end Weight

namespace Algebra

/-- The tropical algebra declares its sum idempotent and a choice between its operands, and on all
patterns it is: up to matching the sum commutes and associates; of members it is one of the two, as
a pattern, and at most either; it is outside the algebra exactly if an operand is. The weight of no
path is neutral in sums and absorbs products. -/
theorem tropical_plus_selects_least (a b c : Weight) :
    (Law.idempotent ∈ tropical.laws ∧ Law.path ∈ tropical.laws)
      ∧ (tropical.plus a b).Matches (tropical.plus b a)
      ∧ (tropical.plus (tropical.plus a b) c).Matches (tropical.plus a (tropical.plus b c))
      ∧ (a.isMember = true →
          tropical.plus a a = a
            ∧ (tropical.plus a Weight.zero = a ∧ tropical.plus Weight.zero a = a)
            ∧ tropical.times a Weight.zero = Weight.zero
            ∧ tropical.times Weight.zero a = Weight.zero)
      ∧ (a.isMember = true → b.isMember = true →
          (tropical.plus a b = a ∨ tropical.plus a b = b)
            ∧ (tropical.plus a b).value.atMost a.value = true
            ∧ (tropical.plus a b).value.atMost b.value = true)
      ∧ ((tropical.plus a b).isMember = false ↔ a.isMember = false ∨ b.isMember = false) := by
  refine ⟨by decide, Weight.least_comm a b, Weight.least_assoc a b c, ?_, ?_,
    Weight.isMember_least_eq_false_iff⟩
  · intro member
    exact ⟨Weight.least_self member, ⟨Weight.least_zero member, Weight.zero_least member⟩,
      Weight.times_zero member⟩
  · intro first second
    exact ⟨Weight.least_eq_or first second, Weight.least_atMost first second⟩

/-- The other pattern of the weight of the empty path. -/
def signedOne : Weight := ⟨Binary32.negZero⟩

/-- Of its two patterns the sum is the second one. The order decides which one it is, and the
results match. -/
theorem tropical_plus_signedOne :
    (signedOne.isMember = true ∧ Weight.one.isMember = true)
      ∧ (tropical.plus signedOne Weight.one = Weight.one
        ∧ tropical.plus Weight.one signedOne = signedOne)
      ∧ (tropical.plus signedOne Weight.one).Matches (tropical.plus Weight.one signedOne)
      ∧ ((tropical.plus signedOne Weight.one).value.atMost signedOne.value = true
        ∧ (tropical.plus signedOne Weight.one).value.atMost Weight.one.value = true)
      ∧ (tropical.plus signedOne signedOne = signedOne
        ∧ tropical.plus signedOne Weight.zero = signedOne)
      ∧ tropical.times signedOne Weight.zero = Weight.zero := by
  have member : signedOne.isMember = true := by decide
  have other : Weight.one.isMember = true := by decide
  obtain ⟨_, commutes, _, alone, chosen, _⟩ :=
    tropical_plus_selects_least signedOne Weight.one ⟨Binary32.negInfinity⟩
  obtain ⟨itself, ⟨neutral, _⟩, absorbed, _⟩ := alone member
  exact ⟨⟨member, other⟩, ⟨by decide, by decide⟩, commutes, (chosen member other).2,
    ⟨itself, neutral⟩, absorbed⟩

end Algebra
end Transducer
