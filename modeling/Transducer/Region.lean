import Transducer.Error
import Transducer.Layout
/-!
# Arrays, owned or borrowed

The values of an array, with a note whether they lie in the bytes of a file instead of memory of
their own. Borrowing an array from bytes demands that it fits a 64-bit length, lies within the
bytes and starts at a multiple of its alignment, the bytes themselves starting at such a multiple.
-/
namespace Transducer

structure Region (α : Type) where
  values : List α
  borrowed : Bool
  deriving DecidableEq, Repr

namespace Region

variable {α : Type}

def owned (values : List α) : Region α := ⟨values, false⟩

/-- Array lengths in bytes stay below this bound. -/
def byteLimit : Nat := 2 ^ (64 : Nat)

/-- The number of bytes of an array of `length` values. -/
def byteLength (L : Layout α) (length : Nat) : Except Error Nat :=
  if length * L.size < byteLimit then .ok (length * L.size)
  else .error (.badHeader (.arrayLength length))

/-- Borrows the array of `length` values at `offset` in the bytes. -/
def borrow (L : Layout α) (bytes : List UInt8) (offset length : Nat) :
    Except Error (Region α) := do
  let size ← byteLength L length
  let available := bytes.length - offset
  if available < size then throw (.shortRead size available)
  if bytes.length < offset then throw (.fault .regionPastEnd)
  if offset % L.alignment ≠ 0 then throw (.misaligned offset L.alignment)
  return ⟨L.decodeArray length (bytes.drop offset), true⟩

/-- The text of an array inside a larger value: its length and whether it is borrowed. -/
def debugText (region : Region α) : String :=
  "Region \x7b len: " ++ toString region.values.length ++ ", mapped: "
    ++ toString region.borrowed ++ " \x7d"

end Region
end Transducer
