import Transducer.Decimal.Shortest
import Transducer.Decimal.Numeral
import Transducer.Error
import Transducer.Text.Blank
/-!
# Weights as text

Writing a weight with a bounded number of decimal places, without the zeros that end it, and
reading one back. The bound itself fits 16 bits; a larger one is a fault, but only where there
are digits to write.
-/
namespace Transducer.Weight

/-- The largest number of decimal places. -/
def maxPlaces : Nat := 0xffff

/-- Drops the zeros that end the digits after a point, and a point without digits after it. -/
def trimPlaces (digits : List Char) : List Char :=
  if digits.contains '.' then
    Transducer.Text.dropTrailing (· == '.') (Transducer.Text.dropTrailing (· == '0') digits)
  else digits

/-- The text of a weight, with at most `places` digits after the point and none of the zeros
that would end them. -/
def toText (places : Nat) (a : Weight) : Except Error String :=
  if a.value.isNaN then .ok "BadNumber"
  else if a.value.isInfinite then .ok (if a.value.isNegative then "-Infinity" else "Infinity")
  else if maxPlaces < places then .error (.fault .tooManyPlaces)
  else .ok (String.ofList (trimPlaces (Decimal.fixedBinary32 places a.value)))

/-- Reads a weight, blanks around it aside. -/
def ofText? (text : String) : Except Error Weight :=
  let body := Transducer.Text.trim text.toList
  let word := String.ofList body
  if word = "Infinity" then .ok ⟨Binary32.infinity⟩
  else if word = "-Infinity" then .ok ⟨Binary32.negInfinity⟩
  else match Decimal.Numeral.read? body with
    | some numeral => .ok ⟨numeral.toBinary32⟩
    | none => .error (.badWeight (.unreadable word))

/-- A weight inside a larger value, under the name of its algebra. -/
def debugText (algebra : Algebra) (a : Weight) : String :=
  let name := match algebra with
    | .tropical => "TropicalWeight"
    | .log => "LogWeight"
  s!"{name}({Decimal.text a.value})"

end Transducer.Weight
