import Transducer.Power
/-!
# Numbers as bytes

A natural number below `256 ^ width` as `width` bytes, the lowest first, and back. Main
statements: the two directions undo each other.
-/
namespace Transducer.Bytes

/-- The lowest `width` bytes of a number, lowest first. -/
def ofNat : Nat → Nat → List UInt8
  | 0, _ => []
  | width + 1, n => UInt8.ofNat (n % 256) :: ofNat width (n / 256)

/-- The number whose bytes these are, lowest first. -/
def toNat : List UInt8 → Nat
  | [] => 0
  | b :: rest => b.toNat + 256 * toNat rest

@[simp] theorem length_ofNat (width n : Nat) : (ofNat width n).length = width := by
  induction width generalizing n with
  | zero => rfl
  | succ width ih => simp [ofNat, ih]

theorem toNat_lt (bytes : List UInt8) : toNat bytes < 256 ^ bytes.length := by
  induction bytes with
  | nil => simp [toNat]
  | cons b rest ih =>
    have := b.toNat_lt
    simp only [toNat, List.length_cons, Nat.pow_succ]
    omega

theorem toNat_ofNat {width n : Nat} (h : n < 256 ^ width) : toNat (ofNat width n) = n := by
  induction width generalizing n with
  | zero => simp [toNat, ofNat] at *; omega
  | succ width ih =>
    have rest : n / 256 < 256 ^ width := by rw [Nat.pow_succ] at h; omega
    simp only [ofNat, toNat, ih rest]
    have : (UInt8.ofNat (n % 256)).toNat = n % 256 := by simp
    omega

theorem ofNat_toNat (bytes : List UInt8) : ofNat bytes.length (toNat bytes) = bytes := by
  induction bytes with
  | nil => rfl
  | cons b rest ih =>
    have low : (b.toNat + 256 * toNat rest) % 256 = b.toNat := by have := b.toNat_lt; omega
    have high : (b.toNat + 256 * toNat rest) / 256 = toNat rest := by have := b.toNat_lt; omega
    simp only [List.length_cons, ofNat, toNat, low, high, ih, UInt8.ofNat_toNat]

end Transducer.Bytes
