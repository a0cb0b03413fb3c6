import Transducer.Proofs.DeclaredTraits
import Transducer.Proofs.StoredStart
/-!
# Which machines can be packed

A packing may be anyone's: it demands some traits, and one number of entries for every state or any
number at all. A machine is checked against it in steps that are spread over the packing: its
traits, the number of all entries, then each state in turn, or each offset. Neither the order of
these checks nor the count of all entries shows in what they let through: entries that fill their
states one by one fill them in total (`View.totalArcs_add_finals`), while the converse fails, since
some states may make up for others (`packs_iff_packable_uneven`) and since the total is compared
with a product of words that wraps around (`Arity.fills`). Main statement: a machine is packed
exactly if it has the traits and every state has its number of entries, or all entries together are
within the width of the offsets; otherwise it is refused as a mismatch (`packs_iff_packable`).
-/
namespace Transducer

open TraitWord

/-- The entries that a state takes up: its arcs, and one more if it is final. -/
def State.numEntries (state : State) : Nat := state.arcs.length + state.isFinal.toNat

namespace Machine

/-- The entries of all states together. -/
def totalEntries (m : Machine) : Nat := (m.view.states.map fun s => (m.state s).numEntries).sum

/-- A packing has what it demands of a machine: traits, and for each state its number of entries or
an offset. -/
def Packable (m : Machine) (P : Packing) (w : OffsetWidth) : Prop :=
  hasAll m.survey P.required = true ∧ match P.arity with
    | .fixed k => ∀ s ∈ m.view.states, (m.state s).numEntries = k
    | .indexed => m.totalEntries < w.bound

variable {m : Machine} {P : Packing} {w : OffsetWidth}

/-! ## Traits -/

/-- The bits that are always known lie outside of a mask of traits. -/
theorem properties_and_traits (m : Machine) {mask : UInt64} (traits : mask &&& paired = mask) :
    m.properties &&& mask = m.survey &&& mask := by
  have outside {bits : UInt64} (plain_ : bits &&& paired = 0) : bits &&& mask = 0 := by
    rw [← traits, UInt64.and_comm mask, ← UInt64.and_assoc, plain_, UInt64.zero_and]
  unfold properties
  rw [or_and_eq (outside (by decide)), or_and_eq (outside (by decide))]

/-- A machine that can be changed is checked by its survey. -/
theorem checkSource_view (m : Machine) (traits : P.required &&& paired = P.required) :
    Compact.checkSource P m.view = if hasAll m.survey P.required = true then .ok ()
      else .error (.mismatch (.traits P.tag P.required)) := by
  unfold Compact.checkSource hasAll
  rw [m.isFailed_view, m.test_view traits, m.properties_and_traits traits]
  by_cases has : m.survey &&& P.required = P.required <;> simp [has]

/-! ## Entries -/

theorem length_entries_view (m : Machine) (s : StateId) :
    (m.view.entries s).length = (m.state s).numEntries :=
  m.view.length_entries s

/-- The entries of a machine fit in terms of its states. -/
theorem fits_view_iff : m.view.Fits P w ↔ match P.arity with
    | .fixed k => ∀ s ∈ m.view.states, (m.state s).numEntries = k
    | .indexed => m.totalEntries < w.bound := by
  unfold View.Fits View.entryCounts
  simp only [length_entries_view]
  cases P.arity with
  | fixed k => exact List.forall_mem_map
  | indexed => exact Iff.rfl

theorem packable_iff : m.Packable P w ↔ hasAll m.survey P.required = true ∧ m.view.Fits P w := by
  unfold Packable
  rw [fits_view_iff]

theorem totalEntries_eq_sum (m : Machine) : m.totalEntries = m.view.entryCounts.sum := by
  unfold totalEntries View.entryCounts
  simp only [length_entries_view]

/-- The entries of a machine that fits are as many as the product says, which does not wrap around
then unless their own number does. -/
theorem totalEntries_of_fits {k : Nat} (arity : P.arity = .fixed k) (fits : m.view.Fits P w) :
    m.totalEntries = k * m.view.numStates := by
  rw [View.fits_iff_of_fixed arity] at fits
  rw [totalEntries_eq_sum, View.sum_entryCounts]
  exact View.totalArcs_add_finals fits

end Machine

/-- A machine is packed, by any packing that demands traits, exactly if it has all of them and its
entries fit: as many in every single state as the packing has room for, or together no more than
the offsets can tell apart. In every other case it is refused as a mismatch. Although the product
of words that the total is compared with may wrap around, no machine is packed by such an accident:
its entries are as many as the product without a bound. -/
theorem packs_iff_packable (F : Format)
    (traits : F.packing.required &&& paired = F.packing.required)
    (payload : F.packing.Payload) (m : Machine) :
    ((∃ c : Compact F, Compact.ofView? payload m.view = .ok c) ↔ m.Packable F.packing F.width)
      ∧ (¬ m.Packable F.packing F.width → ∃ reason,
        Compact.ofView? (F := F) payload m.view = .error (.mismatch reason))
      ∧ ∀ (c : Compact F) (k : Nat), Compact.ofView? payload m.view = .ok c →
        F.packing.arity = .fixed k → m.totalEntries = k * m.view.numStates := by
  have checked := m.checkSource_view traits
  rw [Machine.packable_iff, ← and_assoc]
  refine ⟨?_, fun c k made arity =>
    Machine.totalEntries_of_fits arity (Compact.fits_of_ofView? made)⟩
  by_cases has : hasAll m.survey F.packing.required = true
  · rw [if_pos has] at checked
    constructor
    · constructor
      · rintro ⟨c, made⟩
        exact ⟨has, Compact.fits_of_ofView? made⟩
      · rintro ⟨_, fits⟩
        exact Compact.ofView?_of_fits payload checked fits
    · intro unfit
      exact Compact.ofView?_of_not_fits payload checked fun fits => unfit ⟨has, fits⟩
  · rw [if_neg has] at checked
    have refused := Compact.ofView?_of_checkSource (F := F) payload checked
    constructor
    · constructor
      · rintro ⟨c, made⟩
        rw [refused] at made
        cases made
      · rintro ⟨impossible, _⟩
        exact absurd impossible has
    · intro _
      exact ⟨_, refused⟩

/-- Acceptors all of whose states have two entries. -/
def pairs : Format := ⟨.tropical, { Packing.grouped 2 with required := Trait.acceptor.yes }, .one⟩

/-- Two states that lead to each other under the given labels. -/
def backAndForth (there back : List Label) : Machine :=
  ⟨0, [⟨Weight.zero, there.map fun label => ⟨label, label, Weight.one, 1⟩⟩,
    ⟨Weight.zero, back.map fun label => ⟨label, label, Weight.one, 0⟩⟩], SymbolPair.none⟩

/-- Four arcs fill two states of two, but not if three of them leave the same state. -/
theorem packs_iff_packable_uneven :
    (∃ c : Compact pairs, Compact.ofView? () (backAndForth [1, 2] [3, 4]).view = .ok c)
      ∧ (backAndForth [1, 2, 3] [4]).totalEntries = (backAndForth [1, 2] [3, 4]).totalEntries
      ∧ ∃ reason, Compact.ofView? (F := pairs) () (backAndForth [1, 2, 3] [4]).view
        = .error (.mismatch reason) := by
  have traits : pairs.packing.required &&& paired = pairs.packing.required := by decide
  have has : hasAll (backAndForth [1, 2] [3, 4]).survey pairs.packing.required = true := by cbv
  obtain ⟨even, _⟩ := packs_iff_packable pairs traits () (backAndForth [1, 2] [3, 4])
  obtain ⟨_, uneven, _⟩ := packs_iff_packable pairs traits () (backAndForth [1, 2, 3] [4])
  have two : ∀ s ∈ (backAndForth [1, 2] [3, 4]).view.states,
      ((backAndForth [1, 2] [3, 4]).state s).numEntries = 2 := by
    have counts : ((backAndForth [1, 2] [3, 4]).view.states.map
        fun s => ((backAndForth [1, 2] [3, 4]).state s).numEntries) = [2, 2] := by rfl
    rw [← List.forall_mem_map (P := (· = 2)), counts]
    decide
  have three : ((backAndForth [1, 2, 3] [4]).state 0).numEntries = 3 := by rfl
  refine ⟨even.2 ⟨has, two⟩, by rfl, uneven fun packable => ?_⟩
  have first := packable.2 0 (by decide)
  rw [three] at first
  cases first

end Transducer
