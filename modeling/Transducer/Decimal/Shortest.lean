import Transducer.Decimal.Fixed
/-!
# The shortest decimal that reads back

A finite binary32 number is the nearest one to every real in an interval around it, the ends
belonging to it when its pattern is even. The shortest decimal is the one with the fewest
significant digits in that interval; of several such, the nearest to the number, a tie going up.
-/
namespace Transducer.Decimal

/-- A decimal `digits · 10 ^ exponent`. -/
structure Scaled where
  digits : Nat
  exponent : Int
  deriving DecidableEq, Repr

/-- The exponent of the leading digit of the positive quotient `n / d`. -/
def leadingExponent (n d : Nat) : Int :=
  if d ≤ n then ((Nat.toDigits 10 (n / d)).length : Int) - 1
  else match (List.range 64).find? fun k => d ≤ n * 10 ^ k with
    | some k => -(k : Int)
    | none => -64

/-- The quotient `n / d` divided by `10 ^ e`, as a quotient again. -/
def descale (n d : Nat) (e : Int) : Nat × Nat :=
  if 0 ≤ e then (n, d * 10 ^ e.toNat) else (n * 10 ^ (-e).toNat, d)

/-- The interval of reals that round to a positive finite number, in half steps. -/
structure Neighbourhood where
  low : Nat
  centre : Nat
  high : Nat
  closed : Bool

def neighbourhood (x : Binary32) : Neighbourhood :=
  let stepsAt (magnitude : Nat) := (Binary32.withSign false magnitude).steps
  { low := stepsAt (x.magnitude - 1) + x.steps
    centre := 2 * x.steps
    high := x.steps + stepsAt (x.magnitude + 1)
    closed := x.magnitude % 2 == 0 }

/-- Whether the decimal, measured in half steps, lies in the interval. -/
def Neighbourhood.contains (near : Neighbourhood) (value : Scaled) : Bool :=
  let (n, d) := descale (value.digits * (2 * Binary32.unit)) 1 (-value.exponent)
  if near.closed then near.low * d ≤ n && n ≤ near.high * d
  else near.low * d < n && n < near.high * d

/-- The best decimal whose last digit stands at `exponent`, if one of the number's two
neighbours there reads back. -/
def Neighbourhood.onGrid (near : Neighbourhood) (exponent : Int) : Option Scaled :=
  let (n, d) := descale near.centre (2 * Binary32.unit) exponent
  let below : Scaled := ⟨n / d, exponent⟩
  let above : Scaled := ⟨n / d + 1, exponent⟩
  match near.contains below, near.contains above with
  | true, true => if 2 * (n % d) < d then some below else some above
  | true, false => some below
  | false, true => some above
  | false, false => none

/-- The shortest decimal that reads back as the positive finite number `x`. -/
def shortest (x : Binary32) : Scaled :=
  let near := neighbourhood x
  let lead := leadingExponent x.steps Binary32.unit
  match (List.range 9).findSome? fun (k : Nat) => near.onGrid (lead - (k : Int)) with
  | some value => value
  | none => ⟨0, 0⟩

/-- Drops the zeros at the end of the digits. -/
def Scaled.significand (value : Scaled) : List Char :=
  (((Nat.toDigits 10 value.digits).reverse.dropWhile (· == '0')).reverse)

/-- The shortest text of a number: positional from `10 ^ (-4)` to below `10 ^ 16`, always with a
digit after the point; otherwise with an exponent, and a point only between digits. -/
def text (x : Binary32) : String :=
  if x.isNaN then "NaN"
  else
    let sign := if x.isNegative then "-" else ""
    if x.isInfinite then sign ++ "inf"
    else if x.magnitude = 0 then sign ++ "0.0"
    else
      let value := shortest x
      let digits := value.significand
      let lead := value.exponent + (Nat.toDigits 10 value.digits).length - 1
      let body : List Char :=
        if lead < -4 ∨ 16 ≤ lead then
          let tail := digits.drop 1
          digits.take 1 ++ (if tail.isEmpty then [] else '.' :: tail)
            ++ 'e' :: (toString lead).toList
        else if lead < 0 then
          '0' :: '.' :: (List.replicate (-lead - 1).toNat '0' ++ digits)
        else
          let whole := lead.toNat + 1
          let fraction := digits.drop whole
          digits.take whole ++ List.replicate (whole - digits.length) '0'
            ++ '.' :: (if fraction.isEmpty then ['0'] else fraction)
      sign ++ String.ofList body

end Transducer.Decimal
