import Transducer.Proofs.StockPackings
import Transducer.Proofs.StoreOfView
/-!
# Stores made from packed elements

Elements are cut into rows, either of equal size or each opened by a final entry. Both ways of
cutting give a store that holds its rows (`holds_of_ofElements`). When a packing reads an element
alike in every state, as the stock packings do, no row has a final entry behind its front and the
arcs are the other entries (`Packing.Tidy`). A final entry of weight `zero` is hollow. It stays in a
row of fixed size only: the gathering of rows of any size leaves it out (`holds_of_ofMarked`), so
the fronts of the rows are solid when the elements of a string are
(`forall_fronts_iff_of_ofElements`). The rows settle a store that is not borrowed, but for its start
and its count of arcs (`Holds.eq_of_owned`).
-/
namespace Transducer

namespace Packing

/-- Every state reads the label and the final weight of an element alike. -/
structure Uniform (P : Packing) (payload : P.Payload) : Prop where
  ilabel : ∀ s e fields, (P.unpack payload s e fields).ilabel = P.inputLabel payload 0 e
  weight : ∀ s e, (P.unpack payload s e Fields.inputAndWeight).weight
    = (P.unpack payload 0 e Fields.inputAndWeight).weight

/-- A final entry that makes no state final. -/
def isHollow (P : Packing) (payload : P.Payload) (e : P.Element) : Bool :=
  P.isFinalEntry payload 0 e && (P.unpack payload 0 e Fields.inputAndWeight).weight.isZero

/-- Only the first entry of a row may be a final one, and the other entries are counted. -/
structure Tidy (P : Packing) (payload : P.Payload) (rows : List (List P.Element))
    (numArcs : Nat) : Prop where
  tails : ∀ row ∈ rows, ∀ e ∈ row.tail, P.isFinalEntry payload 0 e = false
  numArcs : numArcs = rows.flatten.countP fun e => !P.isFinalEntry payload 0 e

end Packing

theorem Stock.uniform (k : Stock) (payload : k.packing.Payload) : k.packing.Uniform payload := by
  cases k <;> exact ⟨fun _ _ _ => rfl, fun _ _ => rfl⟩

theorem Stock.isHollow_pack (k : Stock) (payload : k.packing.Payload) (s : StateId) (arc : Arc) :
    k.packing.isHollow payload (k.packing.pack payload s arc)
      = (arc.ilabel == noLabel && (if k.keepsWeights then arc.weight else Weight.one).isZero) := by
  cases k <;> rfl

namespace Store

variable {P : Packing} {w : OffsetWidth} {payload : P.Payload} {elements : List P.Element}
  {store : Store P w}

theorem isFinalEntry_eq (uniform : P.Uniform payload) (s : StateId) (e : P.Element) :
    P.isFinalEntry payload s e = P.isFinalEntry payload 0 e := by
  unfold Packing.isFinalEntry
  rw [show P.inputLabel payload s e = P.inputLabel payload 0 e from uniform.ilabel s e _]

/-! ## Rows of equal size -/

/-- What a store of groups consists of. -/
theorem ofGroups_eq_ok {k : Nat} (h : ofGroups P w payload k elements = .ok store) :
    ∃ kept, kept = (if k = 1 then terminated P payload elements else elements)
      ∧ k ≠ 0 ∧ kept.length = kept.length / k * k
      ∧ store = ⟨.grouped k, Region.owned kept, firstState (kept.length / k), kept.length / k,
        kept.zipIdx.countP fun (e, i) => !P.isFinalEntry payload (stateAt (i / k)) e⟩ := by
  refine ⟨_, rfl, ?_⟩
  change (if k = 0 ∨ (if k = 1 then terminated P payload elements else elements).length % k ≠ 0
    then _ else _) = _ at h
  generalize (if k = 1 then terminated P payload elements else elements) = kept at h ⊢
  split at h
  · cases h
  · rename_i whole
    have positive : k ≠ 0 := fun zero => whole (Or.inl zero)
    have divided := Classical.not_not.1 fun rest => whole (Or.inr rest)
    refine ⟨positive, ?_, (Except.ok.inj h).symm⟩
    exact (Nat.div_mul_cancel (Nat.dvd_of_mod_eq_zero divided)).symm

theorem countP_zipIdx (uniform : P.Uniform payload) (number : Nat → StateId)
    (kept : List P.Element) (i : Nat) :
    (kept.zipIdx i).countP (fun (e, i) => !P.isFinalEntry payload (number i) e)
      = kept.countP fun e => !P.isFinalEntry payload 0 e := by
  induction kept generalizing i with
  | nil => rfl
  | cons e kept ih =>
    rw [List.zipIdx_cons, List.countP_cons, List.countP_cons, ih]
    simp only [isFinalEntry_eq uniform (number i) e]

theorem holds_of_ofGroups {k : Nat} (arity : P.arity = .fixed k)
    (h : ofGroups P w payload k elements = .ok store) :
    ∃ rows, store.Holds rows ∧ store.numArcs ≤ store.elements.values.length
      ∧ (P.Uniform payload → k = 1 → P.Tidy payload rows store.numArcs) := by
  obtain ⟨kept, _, _, divided, rfl⟩ := ofGroups_eq_ok h
  obtain ⟨rows, flat, number, sizes⟩ := exists_rows_of_length divided
  have cuts : ∀ length ∈ rows.map List.length, length = k := by
    intro length member
    obtain ⟨row, here, rfl⟩ := List.mem_map.1 member
    exact sizes row here
  refine ⟨rows, ⟨flat.symm, number.symm, arity.symm, cuts⟩, ?_, ?_⟩
  · refine Nat.le_trans List.countP_le_length ?_
    rw [List.length_zipIdx]
    exact Nat.le_refl _
  · intro uniform single
    refine ⟨fun row member e behind => ?_, ?_⟩
    · have one := sizes row member
      rw [single] at one
      obtain ⟨only, rfl⟩ := List.length_eq_one_iff.1 one
      cases behind
    · rw [flat]
      exact countP_zipIdx uniform (fun i => stateAt (i / k)) kept 0

/-! ## Rows opened by final entries -/

/-- The rows gathered from a sequence: the rest of the row that was open before it, and the rows
that it opens. -/
structure Gathered.Rows (gathered : Gathered P w) (kept : Nat) (first : List P.Element)
    (rows : List (List P.Element)) : Prop where
  elements : gathered.elements = first ++ rows.flatten
  offsets : gathered.offsets.map (·.val) = runningSums (kept + first.length) (rows.map List.length)
  numArcs : gathered.numArcs ≤ gathered.elements.length

/-- What a packing that reads elements alike finds in gathered rows. -/
structure Gathered.Plain (payload : P.Payload) (gathered : Gathered P w)
    (first : List P.Element) (rows : List (List P.Element)) : Prop where
  first : ∀ e ∈ first, P.isFinalEntry payload 0 e = false
  tails : ∀ row ∈ rows, ∀ e ∈ row.tail, P.isFinalEntry payload 0 e = false
  solid : ∀ e ∈ gathered.elements, P.isHollow payload e = false
  numArcs : gathered.numArcs = gathered.elements.countP fun e => !P.isFinalEntry payload 0 e

/-- A sequence gathered behind some states and some kept elements has rows; none was open before it
if there were no states. -/
def Gathered.Cut (payload : P.Payload) (gathered : Gathered P w) (states kept : Nat) : Prop :=
  ∃ first rows, gathered.Rows kept first rows ∧ (states = 0 → first = [])
    ∧ (P.Uniform payload → gathered.Plain payload first rows)

section Steps

variable {after : Gathered P w} {states kept : Nat} {offset : Offset w} {s : StateId}
  {e : P.Element}

/-- The end of a sequence. -/
theorem Gathered.cut_nil (fits : offset.val = kept) :
    Gathered.Cut payload ⟨[offset], [], 0⟩ states kept := by
  refine ⟨[], [], ⟨rfl, by simp [runningSums, fits], Nat.le_refl _⟩, fun _ => rfl, fun _ => ?_⟩
  exact ⟨List.forall_mem_nil _, List.forall_mem_nil _, List.forall_mem_nil _, rfl⟩

/-- A final entry of weight `zero` opens a row and is left out of it. -/
theorem Gathered.Cut.leaveOut (later : after.Cut payload (states + 1) kept)
    (fits : offset.val = kept) :
    Gathered.Cut payload { after with offsets := offset :: after.offsets } states kept := by
  obtain ⟨first, rows, cut, _, plain⟩ := later
  refine ⟨[], first :: rows, ⟨by simp [cut.elements], ?_, cut.numArcs⟩, fun _ => rfl, ?_⟩
  · simp [runningSums, fits, cut.offsets]
  · intro uniform
    obtain ⟨arcs, tails, solid, numArcs⟩ := plain uniform
    refine ⟨List.forall_mem_nil _, ?_, solid, numArcs⟩
    rw [List.forall_mem_cons]
    exact ⟨fun a behind => arcs a (List.mem_of_mem_tail behind), tails⟩

/-- Another final entry opens a row and starts it. -/
theorem Gathered.Cut.start (later : after.Cut payload (states + 1) (kept + 1))
    (fits : offset.val = kept)
    (marker : (P.unpack payload s e Fields.inputAndWeight).ilabel = noLabel)
    (final : ¬ (P.unpack payload s e Fields.inputAndWeight).weight.isZero = true) :
    Gathered.Cut payload
      { after with offsets := offset :: after.offsets, elements := e :: after.elements }
      states kept := by
  obtain ⟨first, rows, cut, _, plain⟩ := later
  refine ⟨[], (e :: first) :: rows, ⟨by simp [cut.elements], ?_, ?_⟩, fun _ => rfl, ?_⟩
  · simp [runningSums, fits, cut.offsets, Nat.add_assoc, Nat.add_comm 1]
  · exact Nat.le_succ_of_le cut.numArcs
  · intro uniform
    obtain ⟨arcs, tails, solid, numArcs⟩ := plain uniform
    rw [uniform.ilabel] at marker
    rw [uniform.weight] at final
    have isFinal : P.isFinalEntry payload 0 e = true := beq_iff_eq.2 marker
    refine ⟨List.forall_mem_nil _, ?_, ?_, ?_⟩
    · rw [List.forall_mem_cons]
      exact ⟨arcs, tails⟩
    · rw [List.forall_mem_cons]
      exact ⟨by simp [Packing.isHollow, final], solid⟩
    · simp [numArcs, isFinal]

/-- An arc goes on with the row that is open. -/
theorem Gathered.Cut.goOn (later : after.Cut payload states (kept + 1)) (opened : states ≠ 0)
    (arc : (P.unpack payload s e Fields.inputAndWeight).ilabel ≠ noLabel) :
    Gathered.Cut payload
      { after with elements := e :: after.elements, numArcs := after.numArcs + 1 }
      states kept := by
  obtain ⟨first, rows, cut, _, plain⟩ := later
  refine ⟨e :: first, rows, ⟨by simp [cut.elements], ?_, ?_⟩, fun none_ => absurd none_ opened, ?_⟩
  · simp [cut.offsets, Nat.add_assoc, Nat.add_comm 1]
  · exact Nat.succ_le_succ cut.numArcs
  · intro uniform
    obtain ⟨arcs, tails, solid, numArcs⟩ := plain uniform
    rw [uniform.ilabel] at arc
    have isArc : P.isFinalEntry payload 0 e = false := beq_eq_false_iff_ne.2 arc
    refine ⟨?_, tails, ?_, by simp [numArcs, isArc]⟩
    · rw [List.forall_mem_cons]
      exact ⟨isArc, arcs⟩
    · rw [List.forall_mem_cons]
      exact ⟨by simp [Packing.isHollow, isArc], solid⟩

end Steps

/-- Each final entry opens a row, and an arc goes on with the open one. -/
theorem cut_of_gather {states kept : Nat} {gathered : Gathered P w}
    (h : gather P w payload states kept elements = .ok gathered) :
    gathered.Cut payload states kept := by
  induction elements generalizing states kept gathered with
  | nil =>
    unfold gather at h
    obtain ⟨offset, fits, made⟩ := bind_eq_ok_iff.1 h
    cases made
    exact Gathered.cut_nil ((Offset.ofNat_eq_ok_iff ..).1 fits)
  | cons e rest ih =>
    unfold gather at h
    simp only at h
    split at h
    · rename_i marker
      obtain ⟨offset, fits, h⟩ := bind_eq_ok_iff.1 h
      rw [Offset.ofNat_eq_ok_iff] at fits
      split at h
      · obtain ⟨after, later, made⟩ := bind_eq_ok_iff.1 h
        cases made
        exact (ih later).leaveOut fits
      · rename_i final
        obtain ⟨after, later, made⟩ := bind_eq_ok_iff.1 h
        cases made
        exact (ih later).start fits marker final
    · rename_i arc
      split at h
      · cases h
      · rename_i opened
        obtain ⟨after, later, made⟩ := bind_eq_ok_iff.1 h
        cases made
        exact (ih later).goOn opened arc

/-- What a store of marked elements consists of. -/
theorem ofMarked_eq_ok (h : ofMarked P w payload elements = .ok store) :
    ∃ gathered, gather P w payload 0 0 elements = .ok gathered
      ∧ store = ⟨.indexed (Region.owned gathered.offsets), Region.owned gathered.elements,
        firstState (gathered.offsets.length - 1), gathered.offsets.length - 1,
        gathered.numArcs⟩ := by
  unfold ofMarked at h
  obtain ⟨gathered, made, rest⟩ := bind_eq_ok_iff.1 h
  obtain ⟨_, _, built⟩ := bind_eq_ok_iff.1 rest
  exact ⟨gathered, made, (Except.ok.inj built).symm⟩

theorem holds_of_ofMarked (arity : P.arity = .indexed)
    (h : ofMarked P w payload elements = .ok store) :
    ∃ rows, store.Holds rows ∧ store.numArcs ≤ store.elements.values.length
      ∧ (P.Uniform payload → P.Tidy payload rows store.numArcs
        ∧ ∀ e ∈ store.elements.values, P.isHollow payload e = false) := by
  obtain ⟨gathered, made, rfl⟩ := ofMarked_eq_ok h
  obtain ⟨first, rows, cut, start, plain⟩ := cut_of_gather made
  rw [start rfl] at cut plain
  obtain ⟨flat, offsets, numArcs⟩ := cut
  have number : gathered.offsets.length - 1 = rows.length := by
    have lengths := congrArg List.length offsets
    rw [List.length_map, length_runningSums, List.length_map] at lengths
    omega
  refine ⟨rows, ⟨flat, number, arity.symm, offsets⟩, numArcs, fun uniform => ?_⟩
  obtain ⟨_, tails, solid, counted⟩ := plain uniform
  rw [flat] at counted
  exact ⟨⟨tails, counted⟩, solid⟩

/-! ## Rows of either kind -/

/-- A store made from elements holds rows. -/
theorem holds_of_ofElements (h : ofElements P w payload elements = .ok store) :
    ∃ rows, store.Holds rows ∧ store.numArcs ≤ store.elements.values.length := by
  unfold ofElements at h
  split at h
  · rename_i k arity
    obtain ⟨rows, holds, numArcs, _⟩ := holds_of_ofGroups arity h
    exact ⟨rows, holds, numArcs⟩
  · rename_i arity
    obtain ⟨rows, holds, numArcs, _⟩ := holds_of_ofMarked arity h
    exact ⟨rows, holds, numArcs⟩

theorem start_of_ofElements (h : ofElements P w payload elements = .ok store) :
    store.start = firstState store.numStates := by
  unfold ofElements at h
  split at h
  · obtain ⟨kept, _, _, _, rfl⟩ := ofGroups_eq_ok h
    rfl
  · obtain ⟨gathered, _, rfl⟩ := ofMarked_eq_ok h
    rfl

/-! ## Hollow elements of the stock packings -/

section Hollow

variable {k : Stock} {width : OffsetWidth}

/-- In rows of one element, the elements are the fronts. -/
theorem forall_heads_iff {α : Type} {rows : List (List α)} {p : α → Bool}
    (single : ∀ row ∈ rows, row.length = 1) :
    (∀ row ∈ rows, row.head?.any p = false) ↔ ∀ e ∈ rows.flatten, p e = false := by
  constructor
  · intro heads e member
    obtain ⟨row, here, inside⟩ := List.mem_flatten.1 member
    obtain ⟨only, rfl⟩ := List.length_eq_one_iff.1 (single row here)
    rw [List.mem_singleton.1 inside]
    exact heads [only] here
  · intro elements row here
    obtain ⟨only, rfl⟩ := List.length_eq_one_iff.1 (single row here)
    exact elements only (List.mem_flatten.2 ⟨[only], here, List.mem_singleton_self only⟩)

theorem countP_heads {α : Type} {rows : List (List α)} {p : α → Bool}
    (single : ∀ row ∈ rows, row.length = 1) :
    rows.countP (fun row => row.head?.any p) = rows.flatten.countP p := by
  induction rows with
  | nil => rfl
  | cons row rows ih =>
    rw [List.forall_mem_cons] at single
    obtain ⟨only, rfl⟩ := List.length_eq_one_iff.1 single.1
    rw [List.countP_cons, ih single.2, List.flatten_cons, List.singleton_append, List.countP_cons]
    rfl

/-- The rows of a string are its elements, its end included. -/
theorem holds_of_string {elements : List k.packing.Element} {store : Store k.packing width}
    {payload : k.packing.Payload} (string : k.packing.arity = .fixed 1)
    (made : ofElements k.packing width payload elements = .ok store) :
    ∃ rows, store.Holds rows ∧ k.packing.Tidy payload rows store.numArcs
      ∧ (∀ row ∈ rows, row.length = 1)
      ∧ rows.flatten = terminated k.packing payload elements := by
  unfold ofElements at made
  rw [string] at made
  obtain ⟨rows, holds, _, tidy⟩ := holds_of_ofGroups string made
  have single : ∀ row ∈ rows, row.length = 1 := fun row here =>
    holds.length_eq string _ (List.mem_map_of_mem here)
  obtain ⟨kept, kept_eq, _, _, rfl⟩ := ofGroups_eq_ok made
  rw [if_pos rfl] at kept_eq
  have flat : kept = rows.flatten := holds.elements
  exact ⟨rows, holds, tidy (k.uniform payload) rfl, single, flat.symm.trans kept_eq⟩

/-- The end that is added to a string makes its state final. -/
theorem forall_terminated_iff {payload : k.packing.Payload} {elements : List k.packing.Element} :
    (∀ e ∈ terminated k.packing payload elements, k.packing.isHollow payload e = false)
      ↔ ∀ e ∈ elements, k.packing.isHollow payload e = false := by
  unfold terminated
  simp only
  split
  · exact Iff.rfl
  · rw [List.forall_mem_append, List.forall_mem_singleton, Stock.isHollow_pack]
    have solid : (if k.keepsWeights then (Arc.superfinal Weight.one).weight
        else Weight.one).isZero = false := by
      cases k.keepsWeights <;> decide
    rw [solid, Bool.and_false]
    exact and_iff_left rfl

/-- The fronts of the rows are solid when the elements are, as far as rows keep hollow ones. -/
theorem forall_fronts_iff_of_ofElements {elements : List k.packing.Element}
    {store : Store k.packing width} {payload : k.packing.Payload}
    (made : ofElements k.packing width payload elements = .ok store) :
    ∃ rows, store.Holds rows ∧ k.packing.Tidy payload rows store.numArcs
      ∧ ((∀ row ∈ rows, row.head?.any (k.packing.isHollow payload) = false)
        ↔ (k.packing.arity.isIndexed = false →
          ∀ e ∈ elements, k.packing.isHollow payload e = false)) := by
  rcases k.arity_cases with arity | arity
  · obtain ⟨rows, holds, tidy, single, flat⟩ := holds_of_string arity made
    refine ⟨rows, holds, tidy, ?_⟩
    rw [forall_heads_iff single, flat, forall_terminated_iff, arity]
    exact ⟨fun solid _ => solid, fun solid => solid rfl⟩
  · unfold ofElements at made
    rw [arity] at made
    obtain ⟨rows, holds, _, plain⟩ := holds_of_ofMarked arity made
    obtain ⟨tidy, solid⟩ := plain (k.uniform payload)
    refine ⟨rows, holds, tidy, ?_⟩
    rw [arity]
    constructor
    · intro _ impossible
      cases impossible
    · intro _ row here
      cases row with
      | nil => rfl
      | cons e rest =>
        refine solid e ?_
        rw [holds.elements]
        exact List.mem_flatten.2 ⟨e :: rest, here, List.mem_cons_self⟩

end Hollow

/-! ## Stores that hold the same rows -/

section Same

/-- No array of the store lies in the bytes of a file. -/
structure Owned (store : Store P w) : Prop where
  elements : store.elements.borrowed = false
  offsets : ∀ offsets, store.addressing = .indexed offsets → offsets.borrowed = false

theorem owned_of_ofView {v : View} (h : ofView P w payload v = .ok store) : store.Owned := by
  unfold ofView at h
  obtain ⟨addressing, made, built⟩ := bind_eq_ok_iff.1 h
  cases built
  refine ⟨rfl, fun offsets indexed => ?_⟩
  change addressing = _ at indexed
  subst indexed
  unfold addressingOf at made
  cases arity : P.arity with
  | fixed k =>
    rw [arity] at made
    simp only at made
    split at made
    · cases made
    · obtain ⟨_, _, built⟩ := bind_eq_ok_iff.1 made
      cases built
  | indexed =>
    rw [arity] at made
    obtain ⟨sums, _, built⟩ := bind_eq_ok_iff.1 made
    cases built
    rfl

theorem owned_of_ofElements (h : ofElements P w payload elements = .ok store) : store.Owned := by
  unfold ofElements at h
  split at h
  · obtain ⟨kept, _, _, _, rfl⟩ := ofGroups_eq_ok h
    exact ⟨rfl, fun offsets indexed => nomatch indexed⟩
  · obtain ⟨gathered, _, rfl⟩ := ofMarked_eq_ok h
    refine ⟨rfl, fun offsets indexed => ?_⟩
    cases indexed
    rfl

/-- Rows are cut in one way only. -/
theorem addressing_eq_of_cuts {one other : Store P w} {lengths : List Nat}
    (arity : one.addressing.arity = other.addressing.arity)
    (cuts : one.addressing.Cuts lengths) (cuts_other : other.addressing.Cuts lengths)
    (owned : one.Owned) (owned_other : other.Owned) : one.addressing = other.addressing := by
  have borrowed := owned.offsets
  have borrowed_other := owned_other.offsets
  cases first : one.addressing with
  | grouped k =>
    cases second : other.addressing with
    | grouped n =>
      rw [first, second] at arity
      cases arity
      rfl
    | indexed offsets =>
      rw [first, second] at arity
      cases arity
  | indexed offsets =>
    cases second : other.addressing with
    | grouped n =>
      rw [first, second] at arity
      cases arity
    | indexed others =>
      rw [first] at cuts
      rw [second] at cuts_other
      have values : offsets.values = others.values := by
        refine List.map_injective_iff.2 (fun _ _ => Fin.ext) ?_
        exact Eq.trans cuts (Eq.symm cuts_other)
      have kinds := (borrowed offsets first).trans (borrowed_other others second).symm
      cases offsets
      cases others
      simp only at values kinds
      rw [values, kinds]

/-- Stores that are not borrowed and hold the same rows differ in no more than their starts and in
how many of the elements they count as arcs. -/
theorem Holds.eq_of_owned {one other : Store P w} {rows : List (List P.Element)}
    (holds : one.Holds rows) (holds_other : other.Holds rows) (owned : one.Owned)
    (owned_other : other.Owned) (numArcs : one.numArcs = other.numArcs) :
    one = { other with start := one.start } := by
  have addressing := addressing_eq_of_cuts (holds.arity.trans holds_other.arity.symm) holds.cuts
    holds_other.cuts owned owned_other
  have values := holds.elements.trans holds_other.elements.symm
  have borrowed := owned.elements.trans owned_other.elements.symm
  have elements : one.elements = other.elements := by
    cases first : one.elements
    cases second : other.elements
    rw [first, second] at values borrowed
    simp only at values borrowed
    rw [values, borrowed]
  have numStates := holds.numStates.trans holds_other.numStates.symm
  cases one
  simp only at addressing elements numStates numArcs
  rw [addressing, elements, numStates, numArcs]

end Same

end Store
end Transducer
