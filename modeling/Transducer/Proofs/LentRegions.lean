import Transducer.Proofs.Checked
import Transducer.Proofs.PlainReading
import Transducer.Region
/-!
# Arrays lent by memory

An array is lent where its bytes lie, so the bytes have an address, the values are looked at there,
and both the lending and the look are steps that may trap. Lending checks what looking relies on: no
look at a lent array traps, and it finds the values that stand in the bytes. How bytes are looked at
as values is a part of their type, of which no more is known than what holds of types that have
bytes (`Cell.view?_eq`). One check is missing. What is left of the bytes behind an offset past their
end counts as nothing, which is enough for an empty array, and cutting it out traps. Main statement:
when lending traps, when it succeeds, with which error it fails otherwise, and that the arrays of
the library are lent like this (`lend_exact`).
-/
namespace Transducer

open Checked

/-- The values of an array, each from its own bytes. -/
def valuesOf {α : Type} (size : Nat) (decode : List UInt8 → α) (length : Nat)
    (bytes : List UInt8) : List α :=
  (List.range length).map fun i => decode ((bytes.drop (i * size)).take size)

/-- A type whose values are made of `size` bytes, at addresses that are multiples of `alignment`. -/
structure Cell (α : Type) where
  size : Nat
  alignment : Nat
  decode : List UInt8 → α
  /-- Looks at the bytes from an address on as an array, if that is possible. -/
  view? : Nat → List UInt8 → Option (List α)
  /-- Values with bytes can be looked at if they start at a multiple of the alignment and their
  bytes are those of a whole number of them. -/
  view?_eq : 0 < size → ∀ address bytes, view? address bytes
    = if alignment ∣ address ∧ size ∣ bytes.length then
        some (valuesOf size decode (bytes.length / size) bytes)
      else none

/-- Bytes in memory, from an address on. -/
structure Memory where
  address : Nat
  bytes : List UInt8
  fits : bytes.length < arrayLimit

/-- What is kept of a lent array: the byte at which it starts and the number of its values. -/
structure Loan where
  offset : Nat
  length : Nat
  deriving DecidableEq, Repr

def Layout.cell {α : Type} (L : Layout α) : Cell α where
  size := L.size
  alignment := L.alignment
  decode := L.decode
  view? address bytes := if L.alignment ∣ address ∧ L.size ∣ bytes.length then
      some (valuesOf L.size L.decode (bytes.length / L.size) bytes)
    else none
  view?_eq _ _ _ := rfl

namespace Cell

variable {α : Type}

def values (T : Cell α) (length : Nat) (bytes : List UInt8) : List α :=
  valuesOf T.size T.decode length bytes

/-- Looks at the bytes that the array of `length` values at `offset` takes up. -/
def viewAt? (T : Cell α) (m : Memory) (offset length : Nat) : Option (List α) :=
  T.view? (m.address + offset) ((m.bytes.drop offset).take (length * T.size))

/-- Lends the array of `length` values at `offset`. -/
def lend (T : Cell α) (m : Memory) (offset length : Nat) : Checked (Except Error Loan) :=
  if length * T.size < wordLimit then do
    let size := length * T.size
    let available := m.bytes.length - offset
    if available < size then return .error (.shortRead size available)
    else
      let stop ← word (offset + size)
      match T.view? (m.address + offset) (← part m.bytes offset stop) with
      | some _ => return .ok ⟨offset, length⟩
      | none => return .error (.misaligned offset T.alignment)
  else return .error (.badHeader (.arrayLength length))

/-- Looks at a lent array, multiplying and adding without a check. -/
def look (T : Cell α) (m : Memory) (loan : Loan) : Checked (List α) := do
  let size ← word (loan.length * T.size)
  let stop ← word (loan.offset + size)
  match T.view? (m.address + loan.offset) (← part m.bytes loan.offset stop) with
  | some values => return values
  | none => .error .index

/-- What the library makes of an attempt to lend. -/
def region (T : Cell α) (m : Memory) : Checked (Except Error Loan) → Except Error (Region α)
  | .ok (.ok loan) => .ok ⟨T.values loan.length (m.bytes.drop loan.offset), true⟩
  | .ok (.error cause) => .error cause
  | .error _ => .error (.fault .regionPastEnd)

/-- Why an array is not lent: its bytes cannot be counted, or they are not there, or they cannot be
looked at as values. -/
inductive Refused (T : Cell α) (m : Memory) (offset length : Nat) : Error → Prop where
  | uncounted (long : wordLimit ≤ length * T.size) :
      Refused T m offset length (.badHeader (.arrayLength length))
  | missing (counted : length * T.size < wordLimit)
      (short : m.bytes.length - offset < length * T.size) :
      Refused T m offset length (.shortRead (length * T.size) (m.bytes.length - offset))
  | misplaced (inside : offset + length * T.size ≤ m.bytes.length)
      (unfit : T.viewAt? m offset length = none) :
      Refused T m offset length (.misaligned offset T.alignment)

variable {T : Cell α} {m : Memory} {offset length : Nat} {loan : Loan} {cause : Error}

/-! ## Values in bytes -/

/-- Only the bytes of the array matter. -/
theorem values_take (T : Cell α) (length : Nat) (bytes : List UInt8) :
    T.values length (bytes.take (length * T.size)) = T.values length bytes := by
  unfold values valuesOf
  apply List.map_congr_left
  intro i member
  have before : (i + 1) * T.size ≤ length * T.size :=
    Nat.mul_le_mul_right _ (List.mem_range.1 member)
  rw [Nat.add_one_mul] at before
  rw [List.drop_take, List.take_take, Nat.min_eq_left (by omega)]

/-- The bytes of an array are looked at as its values, if they are in the right place. -/
theorem viewAt?_of_pos (solid : 0 < T.size)
    (inside : offset + length * T.size ≤ m.bytes.length) :
    T.viewAt? m offset length
      = if T.alignment ∣ m.address + offset then some (T.values length (m.bytes.drop offset))
        else none := by
  have count : ((m.bytes.drop offset).take (length * T.size)).length = length * T.size := by
    rw [List.length_take, List.length_drop]
    omega
  unfold viewAt?
  rw [T.view?_eq solid, count, Nat.mul_div_cancel _ solid]
  change (if _ then some (T.values length _) else none) = _
  rw [values_take]
  by_cases aligned : T.alignment ∣ m.address + offset
  · rw [if_pos aligned, if_pos ⟨aligned, Nat.dvd_mul_left _ _⟩]
  · rw [if_neg aligned, if_neg fun both => aligned both.1]

theorem decodeArray_eq_values (L : Layout α) (length : Nat) (bytes : List UInt8) :
    L.decodeArray length bytes = L.cell.values length bytes := by
  induction length generalizing bytes with
  | zero => rfl
  | succ length ih =>
    rw [Layout.decodeArray, ih]
    unfold values valuesOf
    rw [List.range_succ_eq_map, List.map_cons, List.map_map]
    simp [Layout.cell, Function.comp_def, Nat.add_one_mul, Nat.add_comm]

/-! ## What comes of lending -/

theorem lend_of_long (long : wordLimit ≤ length * T.size) :
    T.lend m offset length = .ok (.error (.badHeader (.arrayLength length))) :=
  if_neg (Nat.not_lt.2 long)

theorem lend_of_short (counted : length * T.size < wordLimit)
    (short : m.bytes.length - offset < length * T.size) :
    T.lend m offset length
      = .ok (.error (.shortRead (length * T.size) (m.bytes.length - offset))) := by
  unfold lend
  rw [if_pos counted, if_pos short]
  rfl

/-- Nothing is missing of an empty array, and yet it cannot be cut out behind the end. -/
theorem exists_lend_of_past (empty : length * T.size = 0) (past : m.bytes.length < offset) :
    ∃ trap, T.lend m offset length = .error trap := by
  unfold lend
  rw [empty, if_pos (by decide), if_neg (Nat.not_lt_zero _)]
  by_cases counted : offset + 0 < wordLimit
  · have outside : part m.bytes offset (offset + 0) = .error .index :=
      if_neg fun inside => by omega
    rw [word_of_lt counted, ok_bind, outside]
    exact ⟨_, rfl⟩
  · have long : word (offset + 0) = .error .overflow := if_neg counted
    rw [long]
    exact ⟨_, rfl⟩

theorem lend_of_inside (inside : offset + length * T.size ≤ m.bytes.length) :
    T.lend m offset length = .ok (match T.viewAt? m offset length with
      | some _ => .ok ⟨offset, length⟩
      | none => .error (.misaligned offset T.alignment)) := by
  have room := Nat.lt_trans m.fits arrayLimit_lt_wordLimit
  unfold lend viewAt?
  rw [if_pos (by omega), if_neg (by omega), word_of_lt (by omega), ok_bind,
    part_of_le (Nat.le_add_right _ _) inside, ok_bind, Nat.add_sub_cancel_left]
  split <;> rfl

theorem look_of_inside (inside : offset + length * T.size ≤ m.bytes.length) {values : List α}
    (viewed : T.viewAt? m offset length = some values) :
    T.look m ⟨offset, length⟩ = .ok values := by
  have room := Nat.lt_trans m.fits arrayLimit_lt_wordLimit
  unfold viewAt? at viewed
  unfold look
  simp only
  rw [word_of_lt (by omega), ok_bind, word_of_lt (by omega), ok_bind,
    part_of_le (Nat.le_add_right _ _) inside, ok_bind, Nat.add_sub_cancel_left, viewed]
  rfl

/-- The four places that an array can have. -/
theorem cases_of_place (T : Cell α) (m : Memory) (offset length : Nat) :
    wordLimit ≤ length * T.size
      ∨ length * T.size < wordLimit ∧ m.bytes.length - offset < length * T.size
      ∨ length * T.size = 0 ∧ m.bytes.length < offset
      ∨ offset + length * T.size ≤ m.bytes.length := by
  omega

/-- Lending refuses, traps or lends, and each of them in its own places. -/
theorem lend_cases (T : Cell α) (m : Memory) (offset length : Nat) :
    (∃ cause, T.Refused m offset length cause ∧ T.lend m offset length = .ok (.error cause))
      ∨ ((length * T.size = 0 ∧ m.bytes.length < offset)
        ∧ ∃ trap, T.lend m offset length = .error trap)
      ∨ ((offset + length * T.size ≤ m.bytes.length
          ∧ ∃ values, T.viewAt? m offset length = some values)
        ∧ T.lend m offset length = .ok (.ok ⟨offset, length⟩)) := by
  rcases cases_of_place T m offset length with long | ⟨counted, short⟩ | ⟨empty, past⟩ | inside
  · exact Or.inl ⟨_, .uncounted long, lend_of_long long⟩
  · exact Or.inl ⟨_, .missing counted short, lend_of_short counted short⟩
  · exact Or.inr (Or.inl ⟨⟨empty, past⟩, exists_lend_of_past empty past⟩)
  · have lent := lend_of_inside inside
    cases viewed : T.viewAt? m offset length with
    | some values =>
      rw [viewed] at lent
      exact Or.inr (Or.inr ⟨⟨inside, values, rfl⟩, lent⟩)
    | none =>
      rw [viewed] at lent
      exact Or.inl ⟨_, .misplaced inside viewed, lent⟩

theorem lend_eq_ok_iff : T.lend m offset length = .ok (.ok loan)
    ↔ loan = ⟨offset, length⟩ ∧ offset + length * T.size ≤ m.bytes.length
      ∧ ∃ values, T.viewAt? m offset length = some values := by
  constructor
  · intro lent
    rcases lend_cases T m offset length with ⟨_, _, failed⟩ | ⟨_, _, trapped⟩ | ⟨fits, given⟩
    · rw [failed] at lent
      cases lent
    · rw [trapped] at lent
      cases lent
    · rw [given] at lent
      cases lent
      exact ⟨rfl, fits⟩
  · rintro ⟨rfl, inside, values, viewed⟩
    rw [lend_of_inside inside, viewed]

theorem exists_trap_iff : (∃ trap, T.lend m offset length = .error trap)
    ↔ length * T.size = 0 ∧ m.bytes.length < offset := by
  constructor
  · rintro ⟨trap, trapped⟩
    rcases lend_cases T m offset length with ⟨_, _, failed⟩ | ⟨past, _⟩ | ⟨_, given⟩
    · rw [failed] at trapped
      cases trapped
    · exact past
    · rw [given] at trapped
      cases trapped
  · rintro ⟨empty, past⟩
    exact exists_lend_of_past empty past

theorem lend_eq_error_iff :
    T.lend m offset length = .ok (.error cause) ↔ T.Refused m offset length cause := by
  constructor
  · intro failed
    rcases lend_cases T m offset length with ⟨_, refused, found⟩ | ⟨_, _, trapped⟩ | ⟨_, given⟩
    · rw [found] at failed
      cases failed
      exact refused
    · rw [trapped] at failed
      cases failed
    · rw [given] at failed
      cases failed
  · intro refused
    cases refused with
    | uncounted long => exact lend_of_long long
    | missing counted short => exact lend_of_short counted short
    | misplaced inside unfit => rw [lend_of_inside inside, unfit]

/-! ## The arrays of the library -/

/-- Where the bytes start at a multiple of every alignment, only the offset has to be one. -/
theorem borrow_eq_region (L : Layout α) (m : Memory) (offset length : Nat)
    (based : 16 ∣ m.address) :
    Region.borrow L m.bytes offset length = L.cell.region m (L.cell.lend m offset length) := by
  have room := Nat.lt_trans m.fits arrayLimit_lt_wordLimit
  have aligned : L.cell.alignment ∣ m.address + offset ↔ offset % L.alignment = 0 := by
    rw [← Nat.dvd_iff_mod_eq_zero]
    exact Nat.dvd_add_right (Nat.dvd_trans L.alignment_dvd based)
  have places : wordLimit ≤ length * L.size
      ∨ length * L.size < wordLimit ∧ m.bytes.length - offset < length * L.size
      ∨ length * L.size = 0 ∧ m.bytes.length < offset
      ∨ offset + length * L.size ≤ m.bytes.length := cases_of_place L.cell m offset length
  unfold Region.borrow
  rcases places with long | ⟨counted, short⟩ | ⟨empty, past⟩ | inside
  · have uncounted : Region.byteLength L length = .error (.badHeader (.arrayLength length)) :=
      if_neg (Nat.not_lt.2 long)
    rw [lend_of_long long, uncounted]
    rfl
  · have counted' : Region.byteLength L length = .ok (length * L.size) := if_pos counted
    rw [lend_of_short counted short, counted']
    simp only [bind, Except.bind, if_pos short]
    rfl
  · have counted : Region.byteLength L length = .ok 0 := by
      unfold Region.byteLength
      rw [empty, if_pos (by decide)]
    obtain ⟨trap, trapped⟩ := exists_lend_of_past (T := L.cell) empty past
    rw [trapped, counted]
    simp only [bind, Except.bind, Nat.not_lt_zero, if_false, if_pos past]
    rfl
  · have counted : Region.byteLength L length = .ok (length * L.size) :=
      if_pos (show length * L.size < wordLimit by omega)
    have enough : ¬ m.bytes.length - offset < length * L.size := by omega
    have before : ¬ m.bytes.length < offset := by omega
    rw [lend_of_inside inside, viewAt?_of_pos L.size_pos inside, counted]
    simp only [bind, Except.bind, if_neg enough, if_neg before, aligned]
    by_cases placed : offset % L.alignment = 0
    · simp only [ne_eq, placed, not_true_eq_false, if_false, if_true, decodeArray_eq_values]
      rfl
    · simp only [ne_eq, placed, not_false_eq_true, if_true, if_false]
      rfl

end Cell

/-- An array is lent exactly if its bytes are there and can be looked at as values, which for values
with bytes means that its address is a multiple of the alignment. It can then be looked at without a
further check, and each value with bytes is made of its own at the offset. Otherwise lending fails,
for the first of the causes that applies, unless the array is empty and starts behind the end of the
bytes: then lending traps. The library lends in the same way where its bytes start at a multiple of
every alignment. -/
theorem lend_exact {α : Type} (T : Cell α) (m : Memory) (offset length : Nat) :
    (∀ loan, T.lend m offset length = .ok (.ok loan)
        ↔ loan = ⟨offset, length⟩ ∧ offset + length * T.size ≤ m.bytes.length
          ∧ ∃ values, T.viewAt? m offset length = some values)
      ∧ (∀ loan, T.lend m offset length = .ok (.ok loan) →
        ∃ values, T.viewAt? m offset length = some values ∧ T.look m loan = .ok values)
      ∧ (0 < T.size → offset + length * T.size ≤ m.bytes.length →
        T.viewAt? m offset length = if T.alignment ∣ m.address + offset then
            some (T.values length (m.bytes.drop offset))
          else none)
      ∧ (∀ cause, T.lend m offset length = .ok (.error cause) ↔ T.Refused m offset length cause)
      ∧ ((∃ trap, T.lend m offset length = .error trap)
        ↔ length * T.size = 0 ∧ m.bytes.length < offset)
      ∧ ∀ L : Layout α, 16 ∣ m.address →
        Region.borrow L m.bytes offset length
          = L.cell.region m (L.cell.lend m offset length) := by
  refine ⟨fun _ => Cell.lend_eq_ok_iff, ?_, fun solid inside => Cell.viewAt?_of_pos solid inside,
    fun _ => Cell.lend_eq_error_iff, Cell.exists_trap_iff,
    fun L based => Cell.borrow_eq_region L m offset length based⟩
  intro loan lent
  obtain ⟨rfl, inside, values, viewed⟩ := Cell.lend_eq_ok_iff.1 lent
  exact ⟨values, viewed, Cell.look_of_inside inside viewed⟩

/-- Two bytes at an odd address. -/
def oddPair : Memory := ⟨17, [1, 2], by decide⟩

/-- Behind the end of two bytes there is no empty array to lend: nothing is missing of it, and the
attempt traps. -/
theorem not_lend_total : (¬ ∀ (m : Memory) (offset length : Nat),
      (∃ loan, Layout.uint8.cell.lend m offset length = .ok (.ok loan))
        ∨ ∃ cause, Layout.uint8.cell.lend m offset length = .ok (.error cause))
    ∧ Region.borrow Layout.uint8 oddPair.bytes 5 0 = .error (.fault .regionPastEnd) := by
  refine ⟨?_, rfl⟩
  intro total
  rcases total oddPair 5 0 with ⟨loan, lent⟩ | ⟨cause, failed⟩
  · cases lent
  · cases failed

end Transducer
