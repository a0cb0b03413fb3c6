import Transducer.Power
/-!
# Rounding quotients

The nearest whole number to a quotient of naturals, a tie going to the even neighbour.
Binary arithmetic and decimal printing both round through this one function. Main statement:
the result is within half a unit of the quotient.
-/
namespace Transducer

/-- The whole number nearest to `n / d`; of two equally near ones, the even one. -/
def roundEven (n d : Nat) : Nat :=
  let q := n / d
  let twice := 2 * (n % d)
  if twice < d then q
  else if d < twice then q + 1
  else if q % 2 = 0 then q else q + 1

/-- Rounding moves a quotient by at most half a unit. -/
theorem roundEven_bounds (n : Nat) {d : Nat} (positive : 0 < d) :
    2 * n ≤ 2 * d * roundEven n d + d ∧ 2 * d * roundEven n d ≤ 2 * n + d := by
  have whole := Nat.div_add_mod n d
  have below := Nat.mod_lt n positive
  have double : 2 * d * (n / d) = 2 * (d * (n / d)) := Nat.mul_assoc ..
  have next : 2 * d * (n / d + 1) = 2 * (d * (n / d)) + 2 * d := by
    rw [Nat.mul_add, double, Nat.mul_one]
  simp only [roundEven]
  split
  · omega
  · split
    · omega
    · split <;> omega

/-- Whole numbers stay where they are. -/
theorem roundEven_one (n : Nat) : roundEven n 1 = n := by
  simp [roundEven, Nat.mod_one]

end Transducer
