import Transducer.Proofs.DirectWriting
import Transducer.Proofs.StoreOfElements
/-!
# Counts of what a packed machine shows

How many entries and arcs a packed machine shows, in terms of the rows of its store. A state shows
one entry for each element, unless its first element is a final entry of weight `zero`: that one
is passed over as a final weight and is none (`length_entries_view`). Packed entries start so only
in a state that is not final and whose first arc has the reserved label (`head_of_packState`). The
arcs shown are those counted when the store was gathered from elements (`totalArcs_of_tidy`). Every
packed machine passes the check that its own packing makes of a source (`checkSource_of_ofView`,
`checkSource_of_ofElements`).
-/
namespace Transducer

open TraitWord

namespace View

theorem total_eq_sum (v : View) (count : StateId → Nat) :
    v.total count = (v.states.map count).sum := by
  unfold total
  induction v.states with
  | nil => rfl
  | cons s states ih => rw [List.foldr_cons, List.map_cons, List.sum_cons, ih]

end View

namespace Compact

variable {F : Format} {c : Compact F} {rows : List (List F.packing.Element)}

theorem startsFinal_eq (uniform : F.packing.Uniform c.payload) (s : StateId)
    (window : List F.packing.Element) :
    F.packing.startsFinal c.payload s window
      = window.head?.any (F.packing.isFinalEntry c.payload 0) := by
  unfold Packing.startsFinal
  congr 1
  funext e
  exact Store.isFinalEntry_eq uniform s e

/-- The arcs of a state are its elements but for a final entry at the front. -/
theorem numArcs_view (uniform : F.packing.Uniform c.payload) (s : StateId) :
    c.view.numArcs s + ((c.window s).head?.any (F.packing.isFinalEntry c.payload 0)).toNat
      = (c.window s).length := by
  change (c.arcs s).length + _ = _
  rw [arcs_eq, List.length_map, Packing.length_arcEntries, startsFinal_eq uniform]
  cases c.window s with
  | nil => rfl
  | cons e rest =>
    have one := Bool.toNat_le (F.packing.isFinalEntry c.payload 0 e)
    simp only [List.head?_cons, Option.any_some, List.length_cons]
    omega

theorem isFinal_view (uniform : F.packing.Uniform c.payload) (s : StateId) :
    c.view.isFinal s = (c.window s).head?.any fun e =>
      F.packing.isFinalEntry c.payload 0 e && !F.packing.isHollow c.payload e := by
  change (!(c.final s).isZero) = _
  unfold final
  cases c.window s with
  | nil => rfl
  | cons e rest =>
    simp only [List.head?_cons, Option.any_some, Packing.isHollow, Packing.isFinalEntry]
    rw [uniform.ilabel, uniform.weight]
    by_cases marked : F.packing.inputLabel c.payload 0 e = noLabel
    · simp [marked]
    · simp only [if_neg marked, beq_eq_false_iff_ne.2 marked, Bool.false_and]
      rfl

/-- A state shows an entry for every element, a hollow one at the front excepted. -/
theorem length_entries_view (uniform : F.packing.Uniform c.payload) (s : StateId) :
    (c.view.entries s).length
        + ((c.window s).head?.any (F.packing.isHollow c.payload)).toNat
      = (c.window s).length := by
  have arcs := numArcs_view uniform s
  rw [View.length_entries, isFinal_view uniform]
  cases window : c.window s with
  | nil =>
    rw [window] at arcs
    exact arcs
  | cons e rest =>
    rw [window] at arcs
    simp only [List.head?_cons, Option.any_some] at arcs ⊢
    cases hollow : F.packing.isHollow c.payload e with
    | false =>
      rw [Bool.not_false, Bool.and_true]
      exact arcs
    | true =>
      have marked : F.packing.isFinalEntry c.payload 0 e = true := by
        unfold Packing.isHollow at hollow
        exact (Bool.and_eq_true_iff.1 hollow).1
      rw [marked] at arcs ⊢
      exact arcs

/-- The rows of a store are shown by its states in order. -/
theorem map_window_states (holds : c.store.Holds rows) (small : c.store.numStates ≤ 2147483647) :
    c.view.states.map c.window = rows := by
  rw [← holds.map_windowAt, View.states, List.map_map]
  refine List.map_congr_left fun i listed => ?_
  have below : i < c.store.numStates := List.mem_range.1 listed
  exact Store.window_of_position (position?_stateAt (by omega)) below

theorem countP_of_tidy_row {e : F.packing.Element} {rest : List F.packing.Element}
    (tail : ∀ a ∈ rest, F.packing.isFinalEntry c.payload 0 a = false) :
    (e :: rest).countP (fun e => !F.packing.isFinalEntry c.payload 0 e)
        + (F.packing.isFinalEntry c.payload 0 e).toNat = (e :: rest).length := by
  have all : rest.countP (fun e => !F.packing.isFinalEntry c.payload 0 e) = rest.length := by
    rw [List.countP_eq_length]
    intro a member
    rw [tail a member]
    rfl
  rw [List.countP_cons, all, List.length_cons]
  cases F.packing.isFinalEntry c.payload 0 e <;> simp

/-- The arcs of a state are the entries other than a final one, if only the front may be one. -/
theorem numArcs_view_eq_countP (uniform : F.packing.Uniform c.payload) {s : StateId}
    (tail : ∀ e ∈ (c.window s).tail, F.packing.isFinalEntry c.payload 0 e = false) :
    c.view.numArcs s
      = (c.window s).countP fun e => !F.packing.isFinalEntry c.payload 0 e := by
  have arcs := numArcs_view uniform s
  cases window : c.window s with
  | nil =>
    rw [window] at arcs
    simpa using arcs
  | cons e rest =>
    rw [window] at arcs tail
    change ∀ a ∈ rest, F.packing.isFinalEntry c.payload 0 a = false at tail
    have plain := countP_of_tidy_row (c := c) (e := e) tail
    simp only [List.head?_cons, Option.any_some] at arcs
    omega

/-- The arcs shown are those that were counted when rows were gathered. -/
theorem totalArcs_of_tidy (uniform : F.packing.Uniform c.payload) {numArcs : Nat}
    (tidy : F.packing.Tidy c.payload rows numArcs) (shown : c.view.states.map c.window = rows) :
    c.view.totalArcs = numArcs := by
  have each : ∀ s ∈ c.view.states, c.view.numArcs s
      = (c.window s).countP fun e => !F.packing.isFinalEntry c.payload 0 e := by
    intro s state
    have row : c.window s ∈ rows := by
      rw [← shown]
      exact List.mem_map_of_mem state
    exact numArcs_view_eq_countP uniform (tidy.tails _ row)
  rw [View.totalArcs, View.total_eq_sum, List.map_congr_left each, tidy.numArcs, ← shown,
    List.countP_flatten, List.map_map]
  rfl

end Compact

/-! ## Sources of their own packing -/

theorem Stock.required_and_paired (k : Stock) :
    k.packing.required &&& paired = k.packing.required := by
  cases k <;> decide

theorem and_failed_eq_zero_iff {word : UInt64} :
    word &&& failed = 0 ↔ word.toNat.testBit 2 = false := by
  have bit : failed.toNat = 2 ^ 2 := by decide
  constructor
  · intro clear
    have here := congrArg (fun x : UInt64 => x.toNat.testBit 2) clear
    simp only [UInt64.toNat_and, Nat.testBit_and, bit, Nat.testBit_two_pow_self,
      Bool.and_true] at here
    exact here
  · intro clear
    refine eq_of_testBit fun i => ?_
    rw [UInt64.toNat_and, Nat.testBit_and, bit, Nat.testBit_two_pow]
    by_cases place : 2 = i
    · subst place
      simp [clear]
    · simp [place]

/-- What is copied from a view that did not fail does not fail. -/
theorem View.test_copied_and_failed {v : View} (good : v.isFailed = false) :
    v.test copied &&& failed = 0 := by
  have declared : v.properties.toNat.testBit 2 = false := by
    rw [← and_failed_eq_zero_iff]
    simpa [View.isFailed] using good
  have found : v.survey.toNat.testBit 2 = false := testBit_ofVerdict _ (by decide)
  rw [and_failed_eq_zero_iff]
  unfold View.test
  split
  · rw [UInt64.toNat_and, Nat.testBit_and, declared, Bool.false_and]
  · rw [UInt64.toNat_and, UInt64.toNat_or, UInt64.toNat_and, Nat.testBit_and, Nat.testBit_or,
      Nat.testBit_and, declared, found, Bool.false_and, Bool.or_self, Bool.false_and]

namespace Compact

variable {k : Stock} {algebra : Algebra} {width : OffsetWidth} {payload : k.packing.Payload}
  {c : Compact (k.format algebra width)}

/-- A word that has the traits of a packing and no failure passes the check of the packing. -/
theorem checkSource_of_declared {v : View} (good : v.properties &&& failed = 0)
    (traits : v.properties &&& k.packing.required = k.packing.required) :
    checkSource k.packing v = .ok () := by
  rw [checkSource_eq_ok_iff]
  refine ⟨?_, View.test_of_declared traits k.required_and_paired⟩
  unfold View.isFailed
  rw [good]
  rfl

/-- Entries of a state that is final, or whose first arc is no final entry, start solid. -/
theorem head_of_packState (payload : k.packing.Payload) {v : View} {s : StateId}
    (plain : v.isFinal s = false → ∀ a ∈ (v.arcs s).head?, a.ilabel ≠ noLabel) :
    (k.packing.packState payload v s).head?.any (k.packing.isHollow payload) = false := by
  unfold Packing.packState View.entries
  by_cases final : v.isFinal s = true
  · have weight : (if k.keepsWeights then v.final s else Weight.one).isZero = false := by
      cases k.keepsWeights with
      | true => simpa [View.isFinal] using final
      | false => exact (by decide : Weight.one.isZero = false)
    rw [if_pos final, List.cons_append, List.map_cons, List.head?_cons, Option.any_some,
      Stock.isHollow_pack]
    change (_ && (if k.keepsWeights = true then v.final s else Weight.one).isZero) = false
    rw [weight, Bool.and_false]
  · rw [if_neg final, List.nil_append]
    have unreserved := plain (Bool.eq_false_iff.2 final)
    cases arcs : v.arcs s with
    | nil => rfl
    | cons a rest =>
      rw [arcs] at unreserved
      have label : a.ilabel ≠ noLabel := unreserved a rfl
      rw [List.map_cons, List.head?_cons, Option.any_some, Stock.isHollow_pack,
        beq_eq_false_iff_ne.2 label, Bool.false_and]

theorem checkSource_of_ofElements {elements : List k.packing.Element}
    (made : ofElements? payload elements = .ok c) : checkSource k.packing c.view = .ok () := by
  have properties : c.view.properties = k.packing.required ||| expanded :=
    (frame_of_ofElements made).2.2.1
  apply checkSource_of_declared
  · rw [properties]
    cases k <;> decide
  · rw [properties]
    cases k <;> decide

theorem checkSource_of_ofView {v : View} (made : ofView? payload v = .ok c) :
    checkSource k.packing c.view = .ok () := by
  have properties : c.view.properties
      = v.test copied ||| k.packing.required ||| expanded := (frame_of_ofView made).2.1
  obtain ⟨good, _⟩ := checkSource_eq_ok_iff.1 (ofView?_eq_ok_iff.1 made).1
  apply checkSource_of_declared
  · rw [properties, and_failed_eq_zero_iff, UInt64.toNat_or, UInt64.toNat_or, Nat.testBit_or,
      Nat.testBit_or, and_failed_eq_zero_iff.1 (View.test_copied_and_failed good)]
    cases k <;> decide
  · rw [properties]
    refine eq_of_testBit fun i => ?_
    simp only [UInt64.toNat_and, UInt64.toNat_or, Nat.testBit_and, Nat.testBit_or]
    cases k.packing.required.toNat.testBit i <;> simp

end Compact
end Transducer
