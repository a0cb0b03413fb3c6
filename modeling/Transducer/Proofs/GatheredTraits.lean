import Transducer.Proofs.WindowLaw
/-!
# Traits of machines gathered from elements

A machine that is gathered from elements declares the traits its packing demands, without a look at
the elements. Equal labels and the absence of weights are true of it whatever the elements are,
because the fields that carry them are dropped and filled in. That it is a string is not: a final
entry before the last element makes a state in the middle final, and a hollow element makes a state
that has neither an arc nor a final weight. Main statement: the declared verdicts are all true
exactly for elements without either (`truthful_of_gathers`).
-/
namespace Transducer

open TraitWord

namespace View

/-- Every verdict that is declared is found by a survey. -/
def Truthful (v : View) : Prop := ∀ t verdict, Says v.properties t verdict → Says v.survey t verdict

/-! ## What a survey finds in a view -/

variable {v : View}

theorem holds_acceptor_of_obeys (equal : v.Obeys .acceptor true) :
    v.machine.holds .acceptor = true := by
  refine List.all_eq_true.2 fun state member => List.all_eq_true.2 fun a arc => ?_
  obtain ⟨s, _, rfl⟩ := List.mem_map.1 member
  exact beq_iff_eq.2 (equal s a arc).symm

theorem holds_weighted_of_obeys (free : v.Obeys .weighted false) :
    v.machine.holds .weighted = false := by
  refine List.any_eq_false.2 fun state member => ?_
  obtain ⟨s, _, rfl⟩ := List.mem_map.1 member
  obtain ⟨final, arcs⟩ := free s
  rw [Bool.not_eq_true, Bool.or_eq_false_iff, List.any_eq_false]
  exact ⟨final, fun a arc => Bool.eq_false_iff.1 (arcs a arc)⟩

end View

namespace Store

variable {k : Stock} {payload : k.packing.Payload}

theorem countP_concat_le_one_iff {α : Type} {p : α → Bool} {init : List α} {last : α}
    (final : p last = true) : (init ++ [last]).countP p ≤ 1 ↔ ∀ e ∈ init, p e = false := by
  have one : [last].countP p = 1 := List.countP_eq_length.2 (List.forall_mem_singleton.2 final)
  have none_ : init.countP p = 0 ↔ ∀ e ∈ init, p e = false := by
    rw [List.countP_eq_zero]
    simp only [Bool.not_eq_true]
  rw [List.countP_append, one, ← none_]
  omega

/-- A string has one final entry exactly if there is none before its last element. -/
theorem countP_terminated_le_one_iff (elements : List k.packing.Element) :
    (terminated k.packing payload elements).countP (k.packing.isFinalEntry payload 0) ≤ 1
      ↔ ∀ e ∈ elements.dropLast, k.packing.isFinalEntry payload 0 e = false := by
  have added (s : StateId) : k.packing.isFinalEntry payload 0
      (k.packing.pack payload s (Arc.superfinal Weight.one)) = true :=
    Stock.isFinalEntry_pack k payload 0 s _
  unfold terminated
  simp only
  rcases List.eq_nil_or_concat elements with rfl | ⟨init, last, rfl⟩
  · exact @countP_concat_le_one_iff _ _ [] _ (added _)
  · rw [List.concat_eq_append, List.getLast?_concat, Option.any_some,
      isFinalEntry_eq (k.uniform payload), List.dropLast_concat]
    split
    · rename_i final
      exact countP_concat_le_one_iff final
    · rename_i arc
      rw [countP_concat_le_one_iff (added _), List.forall_mem_append, List.forall_mem_singleton]
      exact and_iff_left (Bool.eq_false_iff.2 arc)

end Store

namespace Compact

variable {k : Stock} {algebra : Algebra} {width : OffsetWidth}
  {c : Compact (k.format algebra width)}

/-! ## Dropped fields -/

theorem exists_entry_of_mem_arcs {s : StateId} {a : Arc} (arc : a ∈ c.arcs s) :
    ∃ e ∈ c.window s, k.packing.unpack c.payload s e Fields.all = a := by
  rw [arcs_eq] at arc
  obtain ⟨e, entry, unpacked⟩ := List.mem_map.1 arc
  refine ⟨e, ?_, unpacked⟩
  unfold Packing.arcEntries at entry
  split at entry
  · exact List.mem_of_mem_drop entry
  · exact entry

theorem obeys_acceptor_of_dropped (dropped : k.keepsOutput = false) :
    c.view.Obeys .acceptor true := by
  intro s a arc
  obtain ⟨e, _, rfl⟩ := exists_entry_of_mem_arcs arc
  exact Stock.olabel_unpack dropped c.payload s e Fields.all

theorem obeys_weighted_of_dropped (dropped : k.keepsWeights = false) :
    c.view.Obeys .weighted false := by
  intro s
  constructor
  · change Machine.costs (c.final s) = false
    unfold final
    split
    · rename_i e _
      simp only [Stock.weight_unpack dropped c.payload s e]
      split
      · exact Machine.costs_one
      · exact Machine.costs_zero
    · exact Machine.costs_zero
  · intro a arc
    obtain ⟨e, _, rfl⟩ := exists_entry_of_mem_arcs arc
    rw [Stock.weight_unpack dropped c.payload s e]
    exact Machine.costs_one

/-! ## Strings -/

/-- The arcs of a window of one entry lead to the following state. -/
theorem nextstate_of_single (dropped : k.keepsTarget = false) {s : StateId}
    (single : (c.window s).length = 1) {a : Arc} (arc : a ∈ c.arcs s) : a.nextstate = s + 1 := by
  obtain ⟨e, window⟩ := List.length_eq_one_iff.1 single
  rw [arcs_eq, window] at arc
  obtain ⟨found, entry, rfl⟩ := List.mem_map.1 arc
  unfold Packing.arcEntries at entry
  split at entry
  · cases entry
  · rename_i front
    rw [List.mem_singleton.1 entry, Stock.nextstate_unpack dropped c.payload,
      Packing.followingState]
    refine if_neg fun reserved => front ?_
    rw [(k.uniform c.payload).ilabel] at reserved
    rw [startsFinal_eq (k.uniform c.payload)]
    exact beq_iff_eq.2 reserved

/-- A state of one entry is final or has one arc, unless the entry is hollow. -/
theorem final_or_arc_iff {s : StateId} (single : (c.window s).length = 1) :
    (c.view.isFinal s = true ∨ c.view.numArcs s = 1)
      ↔ (c.window s).head?.any (k.packing.isHollow c.payload) = false := by
  have entries := length_entries_view (F := k.format algebra width) (k.uniform c.payload) s
  rw [View.length_entries, single] at entries
  change _ + ((c.window s).head?.any (k.packing.isHollow c.payload)).toNat = 1 at entries
  generalize (c.window s).head?.any (k.packing.isHollow c.payload) = hollow at entries ⊢
  generalize c.view.isFinal s = final at entries ⊢
  cases hollow <;> cases final <;> simp at entries ⊢ <;> omega

variable {rows : List (List k.packing.Element)}

/-- A machine whose states have one entry each is a string if no entry is hollow and one is
final. -/
theorem holds_string_of_single (dropped : k.keepsTarget = false) (holds : c.store.Holds rows)
    (small : c.store.numStates ≤ 2147483647) (single : ∀ row ∈ rows, row.length = 1)
    (start : c.store.start = Store.firstState c.store.numStates) :
    c.view.machine.holds .string = true
      ↔ (∀ e ∈ rows.flatten, k.packing.isHollow c.payload e = false)
        ∧ rows.flatten.countP (k.packing.isFinalEntry c.payload 0) ≤ 1 := by
  have shown := map_window_states (F := k.format algebra width) holds small
  have window : ∀ s ∈ c.view.states, (c.window s).length = 1 := by
    intro s state
    refine single _ ?_
    rw [← shown]
    exact List.mem_map_of_mem state
  have begins : c.view.start = noState ∨ c.view.start = 0 := by
    change c.store.start = noState ∨ c.store.start = 0
    rw [start, Store.firstState]
    split
    · exact Or.inl rfl
    · exact Or.inr rfl
  have solid : (∀ s ∈ c.view.states, (∀ a ∈ c.view.arcs s, a.nextstate = s + 1)
        ∧ (c.view.isFinal s = true ∨ c.view.numArcs s = 1))
      ↔ ∀ e ∈ rows.flatten, k.packing.isHollow c.payload e = false := by
    rw [← Store.forall_heads_iff single, ← shown, List.forall_mem_map]
    refine forall₂_congr fun s state => ?_
    rw [final_or_arc_iff (window s state)]
    exact and_iff_right fun a arc => nextstate_of_single dropped (window s state) arc
  rw [View.holds_string_iff, and_iff_right begins, solid]
  refine and_congr_right fun solid => ?_
  have finals : c.view.states.countP c.view.isFinal
      = rows.flatten.countP (k.packing.isFinalEntry c.payload 0) := by
    rw [← Store.countP_heads single, ← shown, List.countP_map]
    refine List.countP_congr fun s state => ?_
    obtain ⟨e, only⟩ := List.length_eq_one_iff.1 (window s state)
    have entry : e ∈ rows.flatten := by
      rw [← shown]
      refine List.mem_flatten.2 ⟨c.window s, List.mem_map_of_mem state, ?_⟩
      rw [only]
      exact List.mem_singleton_self e
    rw [isFinal_view (F := k.format algebra width) (k.uniform c.payload), Function.comp_apply, only]
    change (k.packing.isFinalEntry c.payload 0 e && !k.packing.isHollow c.payload e) = true ↔ _
    rw [solid e entry, Bool.not_false, Bool.and_true]
    exact Iff.rfl
  rw [finals]

/-- Whether a string that is gathered from elements is one, the elements tell. -/
theorem holds_string_of_gathers (dropped : k.keepsTarget = false)
    {elements : List k.packing.Element} (gathers : c.Gathers elements)
    (small : c.store.numStates ≤ 2147483647) :
    c.view.machine.holds .string = true
      ↔ (∀ e ∈ elements.dropLast, k.packing.isFinalEntry c.payload 0 e = false)
        ∧ ∀ e ∈ elements, k.packing.isHollow c.payload e = false := by
  obtain ⟨made, _⟩ := gathers.frame
  obtain ⟨rows, holds, _, single, flat⟩ :=
    Store.holds_of_string (Stock.arity_of_not_keepsTarget dropped) made
  rw [holds_string_of_single dropped holds small single (Store.start_of_ofElements made), flat,
    Store.forall_terminated_iff, Store.countP_terminated_le_one_iff, and_comm]

/-- What is declared of a machine gathered from elements, that it is a string excepted. -/
theorem says_survey_of_gathers {elements : List k.packing.Element} (gathers : c.Gathers elements)
    {t : Trait} {verdict : Bool} (said : Says c.view.properties t verdict) :
    Says c.view.survey t verdict ∨ (k.keepsTarget = false ∧ t = .string ∧ verdict = true) := by
  have properties : c.view.properties = k.packing.required ||| expanded := gathers.frame.2
  rw [properties] at said
  have demanded := (says_or.1 said).resolve_right (not_says_expanded t verdict)
  rcases Stock.says_required demanded with ⟨dropped, rfl, rfl⟩ | ⟨dropped, rfl, rfl⟩ | string
  · exact Or.inl (View.says_survey_iff.2
      (View.holds_acceptor_of_obeys (obeys_acceptor_of_dropped dropped)))
  · exact Or.inl (View.says_survey_iff.2
      (View.holds_weighted_of_obeys (obeys_weighted_of_dropped dropped)))
  · exact Or.inr string

end Compact

/-- Of a machine gathered from elements every declared verdict is true but that it is a string. That
one is true, too, exactly if no element before the last one is a final entry and none is hollow. -/
theorem truthful_of_gathers (k : Stock) (algebra : Algebra) (width : OffsetWidth)
    (c : Compact (k.format algebra width)) (elements : List k.packing.Element)
    (gathers : c.Gathers elements) :
    (∀ t verdict, (k.keepsTarget = true ∨ t ≠ .string) → Says c.view.properties t verdict →
        Says c.view.survey t verdict)
      ∧ (c.store.numStates ≤ 2147483647 → (c.view.Truthful ↔ (k.keepsTarget = false →
        (∀ e ∈ elements.dropLast, k.packing.isFinalEntry c.payload 0 e = false)
          ∧ ∀ e ∈ elements, k.packing.isHollow c.payload e = false))) := by
  constructor
  · intro t verdict other said
    rcases Compact.says_survey_of_gathers gathers said with found | ⟨dropped, string, _⟩
    · exact found
    · rcases other with kept | another
      · rw [dropped] at kept
        cases kept
      · exact absurd string another
  · intro small
    constructor
    · intro truthful dropped
      rw [← Compact.holds_string_of_gathers dropped gathers small, ← View.says_survey_iff]
      refine truthful .string true ?_
      change Says c.properties .string true
      rw [gathers.frame.2]
      exact says_or.2 (Or.inl (Stock.says_required_string dropped))
    · intro plain t verdict said
      rcases Compact.says_survey_of_gathers gathers said with found | ⟨dropped, rfl, rfl⟩
      · exact found
      · exact View.says_survey_iff.2
          ((Compact.holds_string_of_gathers dropped gathers small).2 (plain dropped))

def strings : Format := Stock.string.format .tropical .four

/-- A string of two labels; its end is added. -/
def twoLabels : Compact strings := Compact.ofElements (F := strings) () [(1 : Label), (2 : Label)]

theorem truthful_twoLabels : twoLabels.view.Truthful := by
  have made : Compact.ofElements? (F := strings) () [(1 : Label), (2 : Label)] = .ok twoLabels := by
    rfl
  have numStates : twoLabels.store.numStates = 3 := by rfl
  obtain ⟨_, string⟩ := truthful_of_gathers .string .tropical .four twoLabels
    [(1 : Label), (2 : Label)] (Or.inl ⟨(), made⟩)
  refine (string (by rw [numStates]; decide)).2 fun _ => ⟨?_, ?_⟩
  · exact List.forall_mem_singleton.2 rfl
  · exact List.forall_mem_cons.2 ⟨rfl, List.forall_mem_singleton.2 rfl⟩

/-- A string with an end before its only label. -/
def endedTwice : Compact strings := Compact.ofElements (F := strings) () [noLabel, (5 : Label)]

/-- Two final states, or one that is not final and has no arc, are declared to be a string. -/
theorem not_truthful_endedTwice :
    (endedTwice.Gathers [noLabel, (5 : Label)] ∧ ¬ endedTwice.view.Truthful)
      ∧ hollowString.Gathers [WeightedLabel.mk noLabel Weight.zero]
        ∧ ¬ hollowString.view.Truthful := by
  have ended : Compact.ofElements? (F := strings) () [noLabel, (5 : Label)] = .ok endedTwice := by
    rfl
  have hollow : Compact.ofElements? (F := weightedStrings) ()
      [WeightedLabel.mk noLabel Weight.zero] = .ok hollowString := by
    rfl
  refine ⟨⟨Or.inl ⟨(), ended⟩, fun truthful => ?_⟩, Or.inl ⟨(), hollow⟩, fun truthful => ?_⟩
  · have declared : Says endedTwice.view.properties .string true := by decide
    have found : endedTwice.view.machine.holds .string = false := by rfl
    rw [View.says_survey_iff.1 (truthful _ _ declared)] at found
    cases found
  · have declared : Says hollowString.view.properties .string true := by decide
    have found : hollowString.view.machine.holds .string = false := by rfl
    rw [View.says_survey_iff.1 (truthful _ _ declared)] at found
    cases found

end Transducer
