import Transducer.Bytes
import Transducer.Label
/-!
# Plain layouts

A plain layout writes every value of a type in the same number of bytes and reads every such
string of bytes as a value, the two undoing each other. Arrays are the layouts of their values
one after the other. Main statements: an array reads back from its bytes, and bytes of the right
number are those of the array they read as.
-/
namespace Transducer

/-- A way of keeping the values of a type in a fixed number of bytes. Arrays of it that are
borrowed in place start at a multiple of `alignment`. -/
structure Layout (α : Type) where
  size : Nat
  alignment : Nat
  encode : α → List UInt8
  decode : List UInt8 → α
  size_pos : 0 < size
  alignment_dvd : alignment ∣ 16
  length_encode : ∀ a, (encode a).length = size
  decode_encode : ∀ a, decode (encode a) = a
  encode_decode : ∀ bytes, bytes.length = size → encode (decode bytes) = bytes

namespace Layout

variable {α β : Type}

theorem alignment_pos (L : Layout α) : 0 < L.alignment :=
  Nat.pos_of_dvd_of_pos L.alignment_dvd (by decide)

/-- Numbers below `256 ^ width`, lowest byte first, aligned to their width. -/
def number (width : Nat) (pos : 0 < width) (dvd : width ∣ 16) : Layout (Fin (256 ^ width)) where
  size := width
  alignment := width
  encode n := Bytes.ofNat width n
  decode bytes := ⟨Bytes.toNat bytes % 256 ^ width, Nat.mod_lt _ (Nat.pow_pos (by decide))⟩
  size_pos := pos
  alignment_dvd := dvd
  length_encode n := Bytes.length_ofNat width n
  decode_encode n := by
    apply Fin.ext
    simp [Bytes.toNat_ofNat n.isLt, Nat.mod_eq_of_lt n.isLt]
  encode_decode bytes h := by
    subst h
    simp only [Nat.mod_eq_of_lt (Bytes.toNat_lt bytes), Bytes.ofNat_toNat]

/-- The same bytes, read as another type in one-to-one correspondence. -/
def transfer (L : Layout α) (down : β → α) (up : α → β) (up_down : ∀ b, up (down b) = b)
    (down_up : ∀ a, down (up a) = a) : Layout β where
  size := L.size
  alignment := L.alignment
  encode b := L.encode (down b)
  decode bytes := up (L.decode bytes)
  size_pos := L.size_pos
  alignment_dvd := L.alignment_dvd
  length_encode b := L.length_encode _
  decode_encode b := by rw [L.decode_encode, up_down]
  encode_decode bytes h := by rw [down_up, L.encode_decode bytes h]

/-- Two values one after the other, aligned for both. -/
def pair (L : Layout α) (M : Layout β) : Layout (α × β) where
  size := L.size + M.size
  alignment := Nat.lcm L.alignment M.alignment
  encode p := L.encode p.1 ++ M.encode p.2
  decode bytes := (L.decode (bytes.take L.size), M.decode (bytes.drop L.size))
  size_pos := Nat.add_pos_left L.size_pos _
  alignment_dvd := Nat.lcm_dvd L.alignment_dvd M.alignment_dvd
  length_encode p := by simp [L.length_encode, M.length_encode]
  decode_encode p := by
    rw [List.take_left' (L.length_encode _), List.drop_left' (L.length_encode _),
      L.decode_encode, M.decode_encode]
  encode_decode bytes h := by
    rw [L.encode_decode _ (by simp; omega), M.encode_decode _ (by simp; omega),
      List.take_append_drop]

/-- The same bytes, allowed to start anywhere. -/
def unaligned (L : Layout α) : Layout α :=
  { L with alignment := 1, alignment_dvd := Nat.one_dvd 16 }

def uint8 : Layout UInt8 :=
  (number 1 (by decide) (by decide)).transfer (fun b => b.toFin) (fun n => ⟨⟨n⟩⟩)
    (fun _ => rfl) (fun _ => rfl)

def uint16 : Layout UInt16 :=
  (number 2 (by decide) (by decide)).transfer (fun b => b.toFin) (fun n => ⟨⟨n⟩⟩)
    (fun _ => rfl) (fun _ => rfl)

def uint32 : Layout UInt32 :=
  (number 4 (by decide) (by decide)).transfer (fun b => b.toFin) (fun n => ⟨⟨n⟩⟩)
    (fun _ => rfl) (fun _ => rfl)

def uint64 : Layout UInt64 :=
  (number 8 (by decide) (by decide)).transfer (fun b => b.toFin) (fun n => ⟨⟨n⟩⟩)
    (fun _ => rfl) (fun _ => rfl)

def int32 : Layout Int32 :=
  uint32.transfer Int32.toUInt32 UInt32.toInt32 Int32.toInt32_toUInt32 UInt32.toUInt32_toInt32

def int64 : Layout Int64 :=
  uint64.transfer Int64.toUInt64 UInt64.toInt64 Int64.toInt64_toUInt64 UInt64.toUInt64_toInt64

def weight : Layout Weight :=
  uint32.transfer (fun w => w.value.bits) (fun bits => ⟨⟨bits⟩⟩) (fun _ => rfl) (fun _ => rfl)

/-- The values of an array, one after the other. -/
def encodeArray (L : Layout α) (values : List α) : List UInt8 := values.flatMap L.encode

/-- The array of `length` values that starts the bytes. -/
def decodeArray (L : Layout α) : Nat → List UInt8 → List α
  | 0, _ => []
  | length + 1, bytes => L.decode (bytes.take L.size) :: L.decodeArray length (bytes.drop L.size)

@[simp] theorem length_encodeArray (L : Layout α) (values : List α) :
    (L.encodeArray values).length = values.length * L.size := by
  induction values with
  | nil => simp [encodeArray]
  | cons a rest ih =>
    simp only [encodeArray, List.flatMap_cons, List.length_append, L.length_encode] at *
    rw [ih, List.length_cons, Nat.add_one_mul, Nat.add_comm]

@[simp] theorem length_decodeArray (L : Layout α) (length : Nat) (bytes : List UInt8) :
    (L.decodeArray length bytes).length = length := by
  induction length generalizing bytes with
  | zero => rfl
  | succ length ih => simp [decodeArray, ih]

/-- An array reads back from its bytes, whatever follows them. -/
theorem decodeArray_encodeArray (L : Layout α) (values : List α) (rest : List UInt8) :
    L.decodeArray values.length (L.encodeArray values ++ rest) = values := by
  induction values with
  | nil => rfl
  | cons a values ih =>
    simp only [encodeArray, List.flatMap_cons, List.length_cons, decodeArray] at *
    rw [List.append_assoc, List.take_left' (L.length_encode a),
      List.drop_left' (L.length_encode a), L.decode_encode, ih]

/-- Bytes of the right number are those of the array they read as. -/
theorem encodeArray_decodeArray (L : Layout α) (length : Nat) (bytes : List UInt8)
    (h : bytes.length = length * L.size) : L.encodeArray (L.decodeArray length bytes) = bytes := by
  induction length generalizing bytes with
  | zero => simp [decodeArray, encodeArray] at *; exact h
  | succ length ih =>
    rw [Nat.add_one_mul] at h
    have tail := ih (bytes.drop L.size) (by simp; omega)
    simp only [encodeArray, decodeArray, List.flatMap_cons] at *
    rw [L.encode_decode _ (by simp; omega), tail, List.take_append_drop]

end Layout
end Transducer
