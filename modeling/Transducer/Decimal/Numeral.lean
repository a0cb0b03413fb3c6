import Transducer.Binary32
/-!
# Reading decimal numerals

A numeral is an optional sign followed by `inf`, `infinity` or `nan` in any case, or by digits
with an optional point and an optional exponent, at least one digit standing before the
exponent. Its value is the nearest binary32 number.
-/
namespace Transducer.Decimal

/-- A numeral taken apart. -/
inductive Numeral where
  | infinite (negative : Bool)
  | notANumber (negative : Bool)
  | finite (negative : Bool) (digits : Nat) (exponent : Int)
  deriving DecidableEq, Repr

namespace Numeral

def ofDigits (digits : List Char) : Nat :=
  digits.foldl (fun n c => 10 * n + (c.toNat - '0'.toNat)) 0

/-- Splits an optional sign off; the flag tells a minus. -/
def sign : List Char → Bool × List Char
  | '-' :: rest => (true, rest)
  | '+' :: rest => (false, rest)
  | rest => (false, rest)

/-- Reads the exponent that ends a numeral; nothing at all is exponent zero. -/
def exponent? : List Char → Option Int
  | [] => some 0
  | c :: rest =>
    if c = 'e' ∨ c = 'E' then
      let (negative, digits) := sign rest
      if digits.isEmpty ∨ !digits.all Char.isDigit then none
      else some (if negative then -(ofDigits digits : Int) else ofDigits digits)
    else none

def unsigned? (negative : Bool) (text : List Char) : Option Numeral :=
  let word := String.ofList (text.map Char.toLower)
  if word = "inf" ∨ word = "infinity" then some (infinite negative)
  else if word = "nan" then some (notANumber negative)
  else
    let whole := text.takeWhile Char.isDigit
    let rest := text.dropWhile Char.isDigit
    let (fraction, tail) := match rest with
      | '.' :: rest => (rest.takeWhile Char.isDigit, rest.dropWhile Char.isDigit)
      | rest => ([], rest)
    if whole.isEmpty ∧ fraction.isEmpty then none
    else (exponent? tail).map fun e =>
      finite negative (ofDigits (whole ++ fraction)) (e - fraction.length)

def read? (text : List Char) : Option Numeral :=
  let (negative, rest) := sign text
  unsigned? negative rest

/-- The nearest number; exponents far outside the range are settled without computing them. -/
def toBinary32 : Numeral → Binary32
  | infinite negative => Binary32.withSign negative Binary32.infiniteMagnitude
  | notANumber negative => Binary32.withSign negative Binary32.nan.magnitude
  | finite negative digits exponent =>
    let size : Int := (Nat.toDigits 10 digits).length + exponent
    if digits = 0 ∨ size < -60 then Binary32.withSign negative 0
    else if 60 < size then Binary32.withSign negative Binary32.infiniteMagnitude
    else if 0 ≤ exponent then Binary32.ofRatio negative (digits * 10 ^ exponent.toNat) 1
    else Binary32.ofRatio negative digits (10 ^ (-exponent).toNat)

end Numeral
end Transducer.Decimal
