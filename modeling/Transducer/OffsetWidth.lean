import Transducer.Error
import Transducer.Layout
/-!
# Widths of offsets

The offsets of the states among the elements are kept in one, four or eight bytes. A
position that does not fit is refused. Main statement: which positions fit.
-/
namespace Transducer

inductive OffsetWidth where
  | one
  | four
  | eight
  deriving DecidableEq, Repr

namespace OffsetWidth

def bytes : OffsetWidth → Nat
  | one => 1
  | four => 4
  | eight => 8

def bits (w : OffsetWidth) : Nat := 8 * w.bytes

theorem bytes_pos (w : OffsetWidth) : 0 < w.bytes := by cases w <;> decide

theorem bytes_dvd (w : OffsetWidth) : w.bytes ∣ 16 := by cases w <;> decide

/-- The number of positions that fit. -/
def bound (w : OffsetWidth) : Nat := 256 ^ w.bytes

end OffsetWidth

/-- A position among elements, below the bound of a width. -/
abbrev Offset (w : OffsetWidth) := Fin (256 ^ w.bytes)

namespace Offset

variable {w : OffsetWidth}

/-- The lowest offset. -/
def zero (w : OffsetWidth) : Offset w := ⟨0, Nat.pow_pos (by decide)⟩

/-- The offset of a position, if it fits. -/
def ofNat? (w : OffsetWidth) (n : Nat) : Option (Offset w) :=
  if h : n < 256 ^ w.bytes then some ⟨n, h⟩ else none

/-- As `ofNat?`, refusing with an error. -/
def ofNat (w : OffsetWidth) (n : Nat) : Except Error (Offset w) :=
  match ofNat? w n with
  | some offset => .ok offset
  | none => .error (.mismatch (.offset n w.bits))

def layout (w : OffsetWidth) : Layout (Offset w) :=
  Layout.number w.bytes w.bytes_pos w.bytes_dvd

theorem ofNat_eq_ok_iff {n : Nat} {offset : Offset w} :
    ofNat w n = .ok offset ↔ offset.val = n := by
  unfold ofNat ofNat?
  by_cases h : n < 256 ^ w.bytes
  · simp only [dif_pos h, Except.ok.injEq]
    constructor
    · rintro rfl; rfl
    · rintro rfl; rfl
  · simp only [dif_neg h]
    constructor
    · intro e; cases e
    · rintro rfl; exact absurd offset.isLt h

end Offset
end Transducer
