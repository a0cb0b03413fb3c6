import Transducer.Binary32
/-!
# Decimals with a fixed number of places

A quotient of naturals written with a given number of digits after the point, rounded to the
nearest such decimal, a tie going to the even one.
-/
namespace Transducer.Decimal

/-- The digits of `n`, filled with zeros on the left up to `width`. -/
def padded (width n : Nat) : List Char :=
  let digits := Nat.toDigits 10 n
  List.replicate (width - digits.length) '0' ++ digits

/-- The quotient `n / d` with `places` digits after the point; no point when there are none. -/
def fixed (places n d : Nat) : List Char :=
  let scaled := roundEven (n * 10 ^ places) d
  let whole := Nat.toDigits 10 (scaled / 10 ^ places)
  if places = 0 then whole else whole ++ '.' :: padded places (scaled % 10 ^ places)

/-- A finite binary32 number with `places` digits after the point; every negative pattern keeps
its sign, negative zero too. -/
def fixedBinary32 (places : Nat) (x : Binary32) : List Char :=
  let digits := fixed places x.steps Binary32.unit
  if x.isNegative then '-' :: digits else digits

theorem length_padded {width n : Nat} (h : (Nat.toDigits 10 n).length ≤ width) :
    (padded width n).length = width := by
  simp [padded]; omega

end Transducer.Decimal
