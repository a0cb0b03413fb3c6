import Transducer.OffsetWidth
/-!
# Outcomes of steps that may fail

A sequence of steps succeeds when every step does, and otherwise fails as one of its steps fails.
Main statements: the results of two steps in a row, of a check of every value of a list
(`forM_eq_ok_iff`, `exists_of_forM_eq_error`), and of offsets for a list of positions.
-/
namespace Transducer

variable {ε α β : Type}

theorem bind_eq_ok_iff {x : Except ε α} {f : α → Except ε β} {b : β} :
    (x >>= f) = .ok b ↔ ∃ a, x = .ok a ∧ f a = .ok b := by
  cases x with
  | error e => simp [bind, Except.bind]
  | ok a => simp [bind, Except.bind]

theorem forM_eq_ok_iff {check : α → Except ε Unit} {values : List α} :
    values.forM check = .ok () ↔ ∀ a ∈ values, check a = .ok () := by
  induction values with
  | nil => simp [pure, Except.pure]
  | cons a values ih =>
    rw [List.forM, bind_eq_ok_iff, List.forall_mem_cons, ← ih]
    constructor
    · rintro ⟨_, first, rest⟩
      exact ⟨first, rest⟩
    · rintro ⟨first, rest⟩
      exact ⟨_, first, rest⟩

/-- A check of all values fails with the failure of one of them. -/
theorem exists_of_forM_eq_error {check : α → Except ε Unit} {values : List α} {cause : ε}
    (h : values.forM check = .error cause) : ∃ a ∈ values, check a = .error cause := by
  induction values with
  | nil => cases h
  | cons a values ih =>
    rw [List.forM] at h
    cases first : check a with
    | error e =>
      rw [first] at h
      cases h
      exact ⟨a, List.mem_cons_self, first⟩
    | ok u =>
      rw [first] at h
      obtain ⟨b, later, failed⟩ := ih h
      exact ⟨b, List.mem_cons_of_mem a later, failed⟩

namespace Offset

variable {w : OffsetWidth}

theorem ofNat_of_lt {n : Nat} (h : n < 256 ^ w.bytes) : ofNat w n = .ok ⟨n, h⟩ :=
  ofNat_eq_ok_iff.2 rfl

theorem ofNat_of_le {n : Nat} (h : 256 ^ w.bytes ≤ n) :
    ofNat w n = .error (.mismatch (.offset n w.bits)) := by
  simp [ofNat, ofNat?, Nat.not_lt.2 h]

theorem mapM_ofNat_of_lt {positions : List Nat} (h : ∀ n ∈ positions, n < 256 ^ w.bytes) :
    ∃ offsets, positions.mapM (ofNat w) = .ok offsets ∧ offsets.map (·.val) = positions := by
  induction positions with
  | nil => exact ⟨[], rfl, rfl⟩
  | cons n positions ih =>
    simp only [List.mem_cons, forall_eq_or_imp] at h
    obtain ⟨offsets, rest, values⟩ := ih h.2
    refine ⟨⟨n, h.1⟩ :: offsets, ?_, by simp [values]⟩
    rw [List.mapM_cons, ofNat_of_lt h.1, rest]
    rfl

theorem mapM_ofNat_of_le {positions : List Nat} {n : Nat} (member : n ∈ positions)
    (h : 256 ^ w.bytes ≤ n) :
    ∃ cause, positions.mapM (ofNat w) = .error (.mismatch cause) := by
  induction positions with
  | nil => cases member
  | cons m positions ih =>
    rw [List.mapM_cons]
    rcases Nat.lt_or_ge m (256 ^ w.bytes) with small | large
    · have later : n ∈ positions := by
        rcases List.mem_cons.1 member with rfl | later
        · omega
        · exact later
      obtain ⟨cause, failed⟩ := ih later
      exact ⟨cause, by rw [ofNat_of_lt small, failed]; rfl⟩
    · exact ⟨_, by rw [ofNat_of_le large]; rfl⟩

end Offset
end Transducer
