/-!
# Numbers in base sixteen

The digits are lower-case; words that stand for themselves carry a mark in front.
-/
namespace Transducer.Text

/-- A number in base sixteen with lower-case digits and no leading zeros. -/
def hex (n : Nat) : String := String.ofList (Nat.toDigits 16 n)

/-- A number in base sixteen behind its mark. -/
def hexWord (n : Nat) : String := "0x" ++ hex n

/-- A number in base sixteen behind its mark, with at least `width` digits. -/
def hexPadded (width n : Nat) : String :=
  let digits := Nat.toDigits 16 n
  "0x" ++ String.ofList (List.replicate (width - digits.length) '0' ++ digits)

end Transducer.Text
