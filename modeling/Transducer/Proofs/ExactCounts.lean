import Mathlib.Algebra.Order.BigOperators.Group.List
import Mathlib.Algebra.Order.Group.Nat
import Transducer.Proofs.FileRoundTrip
import Transducer.Proofs.OwnFormat
/-!
# When the counts of a packed machine are exact

A packed machine shows fewer entries than its store counts when a state starts with a final entry
of weight `zero`, and fewer arcs when a state that is not final starts with an arc under the
reserved label. Elements can be packed with the former and views with the latter. Main statement:
these are the only machines that are written in their own format otherwise than packed again
(`writeDirect_same`); one of them leaves a file that cannot be read.
-/
namespace Transducer

/-- Counts of which none is larger are equal in total only if they are equal everywhere. -/
theorem View.total_eq_iff {v : View} {less more : StateId → Nat}
    (le : ∀ s ∈ v.states, less s ≤ more s) :
    v.total less = v.total more ↔ ∀ s ∈ v.states, less s = more s := by
  rw [total_eq_sum, total_eq_sum]
  constructor
  · intro equal s state
    refine Nat.le_antisymm (le s state) (Nat.le_of_not_lt fun lt => ?_)
    exact absurd equal (Nat.ne_of_lt (List.sum_lt_sum _ _ le ⟨s, state, lt⟩))
  · intro same
    rw [List.map_congr_left same]

namespace Compact

variable {k : Stock} {algebra : Algebra} {width : OffsetWidth}
  {payload : (k.format algebra width).packing.Payload}
  {c : Compact (k.format algebra width)} {rows : List (List k.packing.Element)}
  {options : WriteOptions}

/-! ## Machines packed from elements -/

/-- With rows of one size, entries that fit leave no hollow front. -/
theorem heads_of_fits (holds : c.store.Holds rows) (shown : c.view.states.map c.window = rows)
    (arity : k.packing.arity = .fixed 1) (fits : c.view.Fits k.packing width) :
    ∀ row ∈ rows, row.head?.any (k.packing.isHollow c.payload) = false := by
  rw [View.fits_iff_of_fixed arity] at fits
  intro row here
  have size := holds.length_eq arity _ (List.mem_map_of_mem here)
  rw [← shown] at here
  obtain ⟨s, state, rfl⟩ := List.mem_map.1 here
  have entries := length_entries_view (F := k.format algebra width) (k.uniform c.payload) s
  have one : (c.view.entries s).length = 1 := fits _ (List.mem_map_of_mem state)
  change (c.view.entries s).length
    + ((c.window s).head?.any (k.packing.isHollow c.payload)).toNat = _ at entries
  cases hollow : (c.window s).head?.any (k.packing.isHollow c.payload) with
  | false => rfl
  | true =>
    rw [hollow, one, size] at entries
    cases entries

/-- Fronts of rows are fronts of windows. -/
theorem recounts_of_fronts (shown : c.view.states.map c.window = rows)
    (arcs : c.view.totalArcs = c.store.numArcs)
    (fronts : ∀ row ∈ rows, row.head?.any (k.packing.isHollow c.payload) = false) :
    c.Recounts := by
  refine ⟨arcs, fun s state => fronts _ ?_⟩
  rw [← shown]
  exact List.mem_map_of_mem state

theorem sameOutcome_iff_of_ofElements (options : WriteOptions) {elements : List k.packing.Element}
    (made : ofElements? payload elements = .ok c) (small : c.store.numStates ≤ 2147483647) :
    SameOutcome (writeDirect payload (.same c) options Sink.unlimited) options
        (ofView? payload c.view)
      ↔ (k.packing.arity.isIndexed = false →
        ∀ e ∈ elements, k.packing.isHollow payload e = false) := by
  have checked := checkSource_of_ofElements made
  obtain ⟨store, stored, built⟩ := bind_eq_ok_iff.1 made
  obtain ⟨rows, holds, tidy, solid⟩ := Store.forall_fronts_iff_of_ofElements stored
  cases built
  have shown := map_window_states (F := k.format algebra width) holds small
  have arcs := totalArcs_of_tidy (F := k.format algebra width) (k.uniform payload) tidy shown
  constructor
  · intro same
    rcases k.arity_cases with arity | arity
    · obtain ⟨fits, _⟩ := fits_and_numArcs_of_sameOutcome (k.textFits_typeName algebra width)
        (.same _) checked rfl (checkEntries_of_holds holds) same
      exact solid.1 (heads_of_fits holds shown arity fits)
    · rw [arity]
      intro impossible
      cases impossible
  · intro elements
    exact sameOutcome_of_recounts payload options checked holds shown
      (recounts_of_fronts shown arcs (solid.2 elements))

/-! ## Machines packed from views -/

/-- Only a state that is not final can lose its first arc. -/
theorem length_arcsAmong_le (v : View) (s : StateId) :
    (arcsAmong (v.entries s)).length ≤ v.numArcs s := by
  unfold arcsAmong View.entries View.numArcs
  by_cases final : v.isFinal s = true
  · simp [final, Arc.superfinal]
  · simp only [final, Bool.false_eq_true, if_false, List.nil_append]
    split
    · rw [List.length_drop]
      omega
    · exact Nat.le_refl _

theorem length_arcsAmong_eq_iff {v : View} {s : StateId} :
    (arcsAmong (v.entries s)).length = v.numArcs s
      ↔ (v.isFinal s = false → ∀ a ∈ (v.arcs s).head?, a.ilabel ≠ noLabel) := by
  unfold arcsAmong View.entries View.numArcs
  by_cases final : v.isFinal s = true
  · simp [final, Arc.superfinal]
  · cases arcs : v.arcs s with
    | nil => simp [final]
    | cons a rest =>
      by_cases reserved : a.ilabel = noLabel <;> simp [final, reserved]

theorem numArcs_of_ofView {v : View} (made : ofView? payload v = .ok c) {s : StateId}
    (inside : v.InRange s) : c.view.numArcs s = (arcsAmong (v.entries s)).length := by
  change (c.arcs s).length = _
  rw [arcs_of_ofView made inside, List.length_map]

/-- No store of a stock packing with state numbers of 32 bits counts arcs beyond 64 bits. -/
theorem totalArcs_lt_of_fits {v : View} (fits : v.Fits k.packing width)
    (small : v.numStates ≤ 2147483647) : v.totalArcs < 2 ^ 64 := by
  have total := v.sum_entryCounts
  rcases k.arity_cases with arity | arity
  · rw [View.fits_iff_of_fixed arity] at fits
    have full := View.totalArcs_add_finals fits
    omega
  · rw [View.fits_iff_of_indexed arity] at fits
    have bound : 256 ^ width.bytes ≤ 2 ^ 64 := by cases width <;> decide
    omega

/-- A machine packed from a view shows the arcs that its store counts, unless it takes the first
arc of a state for its final weight. -/
theorem totalArcs_eq_iff_of_ofView {v : View} (made : ofView? payload v = .ok c)
    (small : v.numStates ≤ 2147483647) :
    c.view.totalArcs ≤ c.store.numArcs ∧ (c.view.totalArcs = c.store.numArcs
      ↔ ∀ s ∈ v.states, v.isFinal s = false → ∀ a ∈ (v.arcs s).head?, a.ilabel ≠ noLabel) := by
  obtain ⟨_, _, _, _, _, numStates, numArcs⟩ := frame_of_ofView made
  have each : ∀ s ∈ v.states, c.view.numArcs s = (arcsAmong (v.entries s)).length :=
    fun s state => numArcs_of_ofView made (View.inRange_of_mem_states small state)
  have total : c.view.totalArcs = v.total fun s => (arcsAmong (v.entries s)).length := by
    have states : c.view.states = v.states := by
      unfold View.states
      rw [show c.view.numStates = v.numStates from numStates]
    rw [View.totalArcs, View.total_eq_sum, states, List.map_congr_left each, View.total_eq_sum]
  have le : ∀ s ∈ v.states, (arcsAmong (v.entries s)).length ≤ v.numArcs s :=
    fun s _ => length_arcsAmong_le v s
  rw [total, numArcs]
  constructor
  · rw [View.totalArcs, View.total_eq_sum, View.total_eq_sum]
    exact List.sum_le_sum le
  · exact (View.total_eq_iff le).trans (forall₂_congr fun s _ => length_arcsAmong_eq_iff)

theorem sameOutcome_iff_of_ofView (options : WriteOptions) {v : View}
    (made : ofView? payload v = .ok c) (small : c.store.numStates ≤ 2147483647) :
    SameOutcome (writeDirect payload (.same c) options Sink.unlimited) options
        (ofView? payload c.view)
      ↔ ∀ s ∈ v.states, v.isFinal s = false → ∀ a ∈ (v.arcs s).head?, a.ilabel ≠ noLabel := by
  have checked := checkSource_of_ofView made
  have holds := store_holds_of_ofView made
  have shown := map_window_states holds small
  obtain ⟨same_payload, _, _, _, _, numStates, numArcs⟩ := frame_of_ofView made
  rw [numStates] at small
  obtain ⟨le, counted⟩ := totalArcs_eq_iff_of_ofView made small
  constructor
  · intro same
    obtain ⟨_, counts⟩ := fits_and_numArcs_of_sameOutcome (k.textFits_typeName algebra width)
      (.same c) checked rfl (checkEntries_of_holds holds) same
    have stored : c.store.numArcs < 2 ^ 64 := by
      rw [numArcs]
      exact totalArcs_lt_of_fits (fits_of_ofView? made) small
    exact counted.1 (Int64.ofNat_injective stored (Nat.lt_of_le_of_lt le stored) counts).symm
  · intro plain
    refine sameOutcome_of_recounts payload options checked holds shown
      (recounts_of_fronts shown (counted.2 plain) ?_)
    intro row here
    obtain ⟨s, state, rfl⟩ := List.mem_map.1 here
    rw [same_payload]
    exact head_of_packState payload (plain s state)

/-! ## Reading back -/

/-- What is written of a machine in its own format is read back, as the machine packed again. -/
def OwnFileReads (c : Compact (k.format algebra width))
    (payload : (k.format algebra width).packing.Payload) (options : WriteOptions) : Prop :=
  ∀ sink, writeDirect payload (.same c) options Sink.unlimited = (.ok (), sink) →
    sink.received.length < fileLimit →
    ∀ name mode lends source, source.Ahead lends 0 sink.received →
      ∃ again d after, ofView? payload c.view = .ok again
        ∧ read (k.format algebra width) name mode source = (.ok d, after)
        ∧ after.Ahead lends sink.received.length []
        ∧ again.Kept d (options.select c.symbols) (Store.borrows options.aligned mode lends)

theorem ownFileReads_of_sameOutcome
    (same : SameOutcome (writeDirect payload (.same c) options Sink.unlimited) options
      (ofView? payload c.view))
    (inside : StartsInside c.store.start c.store.numStates)
    (small : c.store.numStates ≤ 2147483647) (tables : TablesKept c.symbols) :
    c.OwnFileReads payload options := by
  intro sink written short name mode lends source ahead
  rw [written] at same
  cases made : ofView? payload c.view with
  | error cause =>
    rw [made] at same
    obtain ⟨other, failed, _⟩ := same
    cases failed
  | ok again =>
    rw [made] at same
    obtain ⟨_, _, symbols, good, start, numStates, _⟩ := frame_of_ofView made
    have symbols_eq : again.symbols = c.symbols := symbols
    have written_again : again.write options Sink.unlimited = (.ok (), sink) := same.symm
    have inside_again : StartsInside again.store.start again.store.numStates := by
      rw [start, numStates]
      exact inside
    have small_again : again.store.numStates ≤ 2147483647 := by
      rw [numStates]
      exact small
    have tables_again : TablesKept again.symbols := by
      rw [symbols_eq]
      exact tables
    obtain ⟨d, after, back, ahead_after, kept⟩ := exists_read_of_write (.packed made) good
      inside_again small_again tables_again (undoes_payload_of_stock ⟨k, rfl⟩ again.payload)
      written_again short name mode ahead
    rw [symbols_eq] at kept
    exact ⟨again, d, after, rfl, back, ahead_after, kept⟩

theorem startsInside_firstState (numStates : Nat) :
    StartsInside (Store.firstState numStates) numStates := by
  unfold Store.firstState
  by_cases none_ : numStates = 0
  · rw [if_pos none_]
    exact Or.inl rfl
  · rw [if_neg none_]
    have nonneg : (0 : StateId).toInt = 0 := rfl
    refine Or.inr ?_
    omega

theorem tablesKept_none : TablesKept SymbolPair.none := by
  intro table member
  rcases member with nothing | nothing <;> cases nothing

end Compact

/-- A machine packed from elements is written in its own format as it is written packed again, and
read back from there, exactly when no element that takes up a state is a final entry of weight
`zero`; one packed from a view, exactly when no state that is not final starts with an arc under
the reserved label. -/
theorem writeDirect_same (k : Stock) (algebra : Algebra) (width : OffsetWidth)
    (payload : (k.format algebra width).packing.Payload) (c : Compact (k.format algebra width))
    (small : c.store.numStates ≤ 2147483647) (options : WriteOptions) :
    (∀ elements, Compact.ofElements? payload elements = .ok c →
      (Compact.SameOutcome (Compact.writeDirect payload (.same c) options Sink.unlimited) options
          (Compact.ofView? payload c.view) ∧ c.OwnFileReads payload options
        ↔ (k.packing.arity.isIndexed = false →
          ∀ e ∈ elements, k.packing.isHollow payload e = false)))
      ∧ ∀ v, Compact.ofView? payload v = .ok c →
        (Compact.SameOutcome (Compact.writeDirect payload (.same c) options Sink.unlimited) options
            (Compact.ofView? payload c.view)
          ↔ ∀ s ∈ v.states, v.isFinal s = false → ∀ a ∈ (v.arcs s).head?, a.ilabel ≠ noLabel)
        ∧ ((∀ s ∈ v.states, v.isFinal s = false → ∀ a ∈ (v.arcs s).head?, a.ilabel ≠ noLabel) →
          Compact.StartsInside v.start v.numStates → Compact.TablesKept v.symbols →
          c.OwnFileReads payload options) := by
  have numbered : c.store.numStates ≤ 2147483647 := by omega
  constructor
  · intro elements made
    have criterion := Compact.sameOutcome_iff_of_ofElements options made numbered
    obtain ⟨store, stored, built⟩ := bind_eq_ok_iff.1 made
    cases built
    have inside : Compact.StartsInside store.start store.numStates := by
      rw [Store.start_of_ofElements stored]
      exact Compact.startsInside_firstState store.numStates
    constructor
    · intro ⟨same, _⟩
      exact criterion.1 same
    · intro solid
      have same := criterion.2 solid
      exact ⟨same, Compact.ownFileReads_of_sameOutcome same inside small Compact.tablesKept_none⟩
  · intro v made
    have criterion := Compact.sameOutcome_iff_of_ofView options made numbered
    obtain ⟨_, _, symbols, _, start, numStates, _⟩ := Compact.frame_of_ofView made
    refine ⟨criterion, fun plain inside tables => ?_⟩
    rw [← start, ← numStates] at inside
    rw [← symbols] at tables
    exact Compact.ownFileReads_of_sameOutcome (criterion.2 plain) inside small tables

def weightedStrings : Format := Stock.weightedString.format .tropical .four

/-- A string of one label; its end is added. -/
def solidString : Compact weightedStrings :=
  Compact.ofElements (F := weightedStrings) () [WeightedLabel.mk 1 Weight.one]

theorem sameOutcome_solidString :
    Compact.SameOutcome
        (Compact.writeDirect (F := weightedStrings) () (.same solidString) .standard Sink.unlimited)
        .standard (Compact.ofView? (F := weightedStrings) () solidString.view)
      ∧ solidString.OwnFileReads () .standard := by
  have made : Compact.ofElements? (F := weightedStrings) () [WeightedLabel.mk 1 Weight.one]
      = .ok solidString := by
    rfl
  have numStates : solidString.store.numStates = 2 := by rfl
  have small : solidString.store.numStates ≤ 2147483647 := by
    rw [numStates]
    decide
  obtain ⟨elements, _⟩ := writeDirect_same .weightedString .tropical .four () solidString small
    .standard
  exact (elements _ made).2 fun _ => List.forall_mem_singleton.2 rfl

/-- A string of nothing but an end of weight `zero`. -/
def hollowString : Compact weightedStrings :=
  Compact.ofElements (F := weightedStrings) () [WeightedLabel.mk noLabel Weight.zero]

/-- The end is lost in the own format, but not its state: the file is too short to be read. -/
theorem not_sameOutcome_hollowString :
    Compact.ofElements? (F := weightedStrings) () [WeightedLabel.mk noLabel Weight.zero]
        = .ok hollowString
      ∧ ¬ Compact.SameOutcome
        (Compact.writeDirect (F := weightedStrings) () (.same hollowString) .standard
          Sink.unlimited)
        .standard (Compact.ofView? (F := weightedStrings) () hollowString.view)
      ∧ ∃ sink, Compact.writeDirect (F := weightedStrings) () (.same hollowString) .standard
          Sink.unlimited = (.ok (), sink)
        ∧ (Compact.read weightedStrings "" .copy (Source.ofBytes sink.received)).1
          = .error (.shortRead 8 0) := by
  have made : Compact.ofElements? (F := weightedStrings) () [WeightedLabel.mk noLabel Weight.zero]
      = .ok hollowString := by
    rfl
  have written : (Compact.writeDirect (F := weightedStrings) () (.same hollowString) .standard
      Sink.unlimited).1 = .ok () := by
    rfl
  have refused : Compact.ofView? (F := weightedStrings) () hollowString.view
      = .error (.mismatch (.total 0 0 1 1 "weighted_string")) := by
    rfl
  have short : (Compact.read weightedStrings "" .copy (Source.ofBytes
      (Compact.writeDirect (F := weightedStrings) () (.same hollowString) .standard
        Sink.unlimited).2.received)).1 = .error (.shortRead 8 0) := by
    rfl
  refine ⟨made, ?_, _, Prod.ext written rfl, short⟩
  rw [refused]
  intro ⟨other, failed, _⟩
  rw [failed] at written
  cases written

end Transducer
