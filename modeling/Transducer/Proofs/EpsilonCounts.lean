import Transducer.Proofs.LabelOrder
import Transducer.Proofs.MarkedElements
import Transducer.Proofs.WindowLaw
/-!
# Counts of empty labels

The empty labels of a state are counted on its entries, without unpacking its arcs. The scan passes
over every entry whose label is the reserved one, while the arcs of a state are told from its final
weight by the input label of the first entry. The two part ways at a final entry with an empty
output label (`Packing.isMiscounted`), which only the packing that keeps output labels can hold, and
no machine packed from a view does. A machine gathered from elements counts its empty labels right
exactly if no element is such an entry (`epsilons_of_gathers`). In a packed machine the scan may
also stop at the first label above the empty one, as far as the order of the labels is declared.
Main statement: along any chain of packings from a machine without the reserved input label, the
counts are those of the arcs and of the first machine, and stopping early changes none of them
(`epsilons_of_ofView`).
-/
namespace Transducer

open TraitWord

namespace Packing

variable (P : Packing) (payload : P.Payload)

/-- The label of an element on one side, read alone. -/
def labelOf (output : Bool) (s : StateId) (e : P.Element) : Label :=
  (P.unpack payload s e (if output then Fields.onlyOutput else Fields.onlyInput)).label output

/-- A final entry with an empty label on one side, which a scan takes for an arc. -/
def isMiscounted (output : Bool) (e : P.Element) : Bool :=
  P.isFinalEntry payload 0 e && P.labelOf payload output 0 e == epsilon

variable {P payload} {output sorted : Bool} {s : StateId}

theorem countEpsilons_cons (e : P.Element) (rest : List P.Element) :
    P.countEpsilons payload s output sorted (e :: rest)
      = if P.labelOf payload output s e = noLabel then
          P.countEpsilons payload s output sorted rest
        else if P.labelOf payload output s e = epsilon then
          P.countEpsilons payload s output sorted rest + 1
        else if sorted && epsilon < P.labelOf payload output s e then 0
        else P.countEpsilons payload s output sorted rest := rfl

/-- A scan that never stops early counts the entries with an empty label. -/
theorem countEpsilons_eq_countP (window : List P.Element) :
    P.countEpsilons payload s output false window
      = window.countP fun e => P.labelOf payload output s e == epsilon := by
  induction window with
  | nil => rfl
  | cons e rest ih =>
    have distinct : noLabel ≠ epsilon := by decide
    rw [countEpsilons_cons, List.countP_cons, ih]
    by_cases reserved : P.labelOf payload output s e = noLabel
    · simp [reserved, distinct]
    · simp [reserved]
      split <;> simp

/-- Behind a label above the empty one, no label is empty if labels ascend; entries with the
reserved label may stand anywhere. -/
theorem countP_eq_zero_of_above {e : P.Element} {rest : List P.Element}
    (above : epsilon < P.labelOf payload output s e)
    (ascends : ∀ label ∈ (rest.map (P.labelOf payload output s)).filter (· ≠ noLabel),
      P.labelOf payload output s e ≤ label) :
    (rest.countP fun e => P.labelOf payload output s e == epsilon) = 0 := by
  rw [List.countP_eq_zero]
  intro later member empty
  rw [beq_iff_eq] at empty
  have listed : epsilon ∈ (rest.map (P.labelOf payload output s)).filter (· ≠ noLabel) := by
    refine List.mem_filter.2 ⟨List.mem_map.2 ⟨later, member, empty⟩, by decide⟩
  exact Int32.lt_irrefl (Int32.lt_of_lt_of_le above (ascends epsilon listed))

/-- Where labels ascend, stopping at the first one above the empty one misses nothing. -/
theorem countEpsilons_of_ascending {window : List P.Element}
    (ascends : ((window.map (P.labelOf payload output s)).filter (· ≠ noLabel)).Pairwise (· ≤ ·)) :
    P.countEpsilons payload s output sorted window
      = P.countEpsilons payload s output false window := by
  induction window with
  | nil => rfl
  | cons e rest ih =>
    rw [countEpsilons_cons, countEpsilons_cons]
    rw [List.map_cons, List.filter_cons] at ascends
    by_cases reserved : P.labelOf payload output s e = noLabel
    · rw [if_neg (by simpa using reserved)] at ascends
      rw [if_pos reserved, if_pos reserved, ih ascends]
    · rw [if_pos (by simpa using reserved), List.pairwise_cons] at ascends
      rw [if_neg reserved, if_neg reserved, ih ascends.2]
      by_cases above : epsilon < P.labelOf payload output s e
      · have none_left := countP_eq_zero_of_above above ascends.1
        rw [countEpsilons_eq_countP, none_left]
        simp
      · simp [above]

/-- A final entry with the reserved label on both sides is counted right. -/
theorem isMiscounted_of_marked {e : P.Element}
    (marked : P.isFinalEntry payload 0 e = true → P.labelOf payload output 0 e = noLabel) :
    P.isMiscounted payload output e = false := by
  have distinct : (noLabel == epsilon) = false := by decide
  unfold isMiscounted
  by_cases final : P.isFinalEntry payload 0 e = true
  · rw [marked final, distinct, Bool.and_false]
  · rw [Bool.eq_false_iff.2 final, Bool.false_and]

theorem isMiscounted_of_arc {e : P.Element} (arc : P.isFinalEntry payload 0 e = false) :
    P.isMiscounted payload output e = false := by
  rw [isMiscounted, arc, Bool.false_and]

theorem isMiscounted_input (e : P.Element) : P.isMiscounted payload false e = false :=
  isMiscounted_of_marked fun final => beq_iff_eq.1 final

/-- What is true of final entries only is true, in tidy rows, of their fronts only. -/
theorem Tidy.forall_fronts_iff {rows : List (List P.Element)} {numArcs : Nat}
    (tidy : P.Tidy payload rows numArcs) {p : P.Element → Bool}
    (marks : ∀ e, P.isFinalEntry payload 0 e = false → p e = false) :
    (∀ row ∈ rows, row.head?.any p = false) ↔ ∀ e ∈ rows.flatten, p e = false := by
  constructor
  · intro fronts e member
    obtain ⟨row, here, inside⟩ := List.mem_flatten.1 member
    cases row with
    | nil => cases inside
    | cons first rest =>
      rcases List.mem_cons.1 inside with rfl | behind
      · exact fronts _ here
      · exact marks e (tidy.tails _ here e behind)
  · intro all row here
    cases row with
    | nil => rfl
    | cons first rest => exact all first (List.mem_flatten.2 ⟨_, here, List.mem_cons_self⟩)

/-- The entries with an empty label are arcs, but for a miscounted one at the front. -/
theorem countP_arcEntries (window : List P.Element) :
    (window.countP fun e => P.labelOf payload output 0 e == epsilon)
      = ((P.arcEntries payload 0 window).countP fun e => P.labelOf payload output 0 e == epsilon)
        + (window.head?.any (P.isMiscounted payload output)).toNat := by
  cases window with
  | nil => rfl
  | cons e rest =>
    unfold arcEntries startsFinal
    simp only [List.head?_cons, Option.any_some, isMiscounted]
    by_cases final : P.isFinalEntry payload 0 e = true
    · by_cases empty : P.labelOf payload output 0 e = epsilon <;> simp [final, empty]
    · simp [final]

end Packing

namespace Stock

variable {k : Stock} {payload : k.packing.Payload}

/-- The labels of an element are read alike in every state and among whichever fields. -/
theorem label_unpack (output : Bool) (s : StateId) (e : k.packing.Element) (fields : Fields) :
    (k.packing.unpack payload s e fields).label output = k.packing.labelOf payload output 0 e := by
  cases k <;> cases output <;> rfl

theorem labelOf_eq (output : Bool) (s : StateId) (e : k.packing.Element) :
    k.packing.labelOf payload output s e = k.packing.labelOf payload output 0 e :=
  label_unpack output s e _

/-- A final entry has the reserved label on both sides where output labels are left out. -/
theorem isMiscounted_of_dropped (dropped : k.keepsOutput = false) (output : Bool)
    (e : k.packing.Element) : k.packing.isMiscounted payload output e = false := by
  have same : k.packing.labelOf payload output 0 e = k.packing.labelOf payload false 0 e := by
    cases output with
    | false => rfl
    | true =>
      rw [← label_unpack true 0 e Fields.all, ← label_unpack false 0 e Fields.all]
      exact olabel_unpack dropped payload 0 e Fields.all
  refine Packing.isMiscounted_of_marked fun final => ?_
  rw [same]
  exact beq_iff_eq.1 final

end Stock

namespace View

/-- Both counts of empty labels are those of the arcs, in every state. -/
def CountsEpsilons (v : View) : Prop := ∀ s,
  v.inputEpsilons s = (v.arcs s).countP (fun a => a.ilabel == epsilon)
    ∧ v.outputEpsilons s = (v.arcs s).countP fun a => a.olabel == epsilon

theorem countP_arcs (v : View) (output : Bool) (s : StateId) :
    (v.arcs s).countP (fun a => a.label output == epsilon)
      = (v.labels output s).countP (· == epsilon) := by
  unfold labels
  rw [List.countP_map]
  rfl

end View

namespace Compact

variable {k : Stock} {algebra : Algebra} {width : OffsetWidth}
  {c : Compact (k.format algebra width)}

/-- The empty labels that a packed machine counts on one side of a state. -/
def epsilons {F : Format} (c : Compact F) (output : Bool) (s : StateId) : Nat :=
  F.packing.countEpsilons c.payload s output (c.declares (.sorted output)) (c.window s)

/-- The arcs of a state are its entries but for a final one at the front, in every state alike. -/
theorem arcEntries_eq (s : StateId) (window : List k.packing.Element) :
    k.packing.arcEntries c.payload s window = k.packing.arcEntries c.payload 0 window := by
  have front (reader : StateId) : k.packing.startsFinal c.payload reader window
      = window.head?.any (k.packing.isFinalEntry c.payload 0) :=
    startsFinal_eq (c := c) (k.uniform c.payload) reader window
  unfold Packing.arcEntries
  rw [front s, front 0]

theorem labels_view (output : Bool) (s : StateId) :
    c.view.labels output s = (k.packing.arcEntries c.payload 0 (c.window s)).map
      (k.packing.labelOf c.payload output 0) := by
  rw [← arcEntries_eq s]
  change (c.arcs s).map (Arc.label output) = _
  rw [arcs_eq, List.map_map]
  exact List.map_congr_left fun e _ => Stock.label_unpack output s e Fields.all

/-- A scan that never stops early counts the arcs with an empty label, and one more where a
miscounted entry is at the front. -/
theorem countEpsilons_window (output : Bool) (s : StateId) :
    k.packing.countEpsilons c.payload s output false (c.window s)
      = (c.view.arcs s).countP (fun a => a.label output == epsilon)
        + ((c.window s).head?.any (k.packing.isMiscounted c.payload output)).toNat := by
  rw [View.countP_arcs, labels_view, List.countP_map, Packing.countEpsilons_eq_countP]
  simp only [Stock.labelOf_eq output s]
  exact Packing.countP_arcEntries (c.window s)

/-! ## Machines gathered from elements -/

section Gathered

variable {elements : List k.packing.Element}

/-- Elements are not looked at for the order of their labels, and none is declared. -/
theorem epsilons_of_gathers_eq (gathers : c.Gathers elements) (output : Bool) (s : StateId) :
    c.epsilons output s = (c.view.arcs s).countP (fun a => a.label output == epsilon)
      + ((c.window s).head?.any (k.packing.isMiscounted c.payload output)).toNat := by
  have undeclared : c.declares (.sorted output) = false := by
    rw [Bool.eq_false_iff, Ne, declares_iff, gathers.frame.2, says_or, not_or]
    exact ⟨k.not_says_required_sorted output, not_says_expanded _ true⟩
  rw [← countEpsilons_window]
  unfold epsilons
  rw [undeclared]

/-- Where weights are left out no entry is hollow, so that every element is stored. -/
theorem elements_of_gathers (gathers : c.Gathers elements) (indexed : k.packing.arity = .indexed)
    (dropped : k.keepsWeights = false) : c.store.elements.values = elements := by
  have solid (e : k.packing.Element) : k.packing.isHollow c.payload e = false := by
    unfold Packing.isHollow
    rw [Stock.weight_unpack dropped, show Weight.one.isZero = false by decide, Bool.and_false]
  have stored : Store.ofMarked k.packing width c.payload elements = .ok c.store := by
    rw [← gathers.frame.1]
    change _ = Store.ofElements k.packing width c.payload elements
    unfold Store.ofElements
    rw [indexed]
  obtain ⟨opens, holds, _⟩ := Store.rows_of_ofMarked (k.uniform c.payload) indexed stored
  rw [holds.elements, Packing.flatten_rows_of_opens opens]
  simp [solid]

/-- The windows start without a miscounted entry if no element is one, and only then if there are
numbers for all states. -/
theorem fronts_of_gathers (gathers : c.Gathers elements) :
    ((∀ e ∈ elements, k.packing.isMiscounted c.payload true e = false) →
        ∀ s, (c.window s).head?.any (k.packing.isMiscounted c.payload true) = false)
      ∧ (c.store.numStates ≤ 2147483647 →
        (∀ s, (c.window s).head?.any (k.packing.isMiscounted c.payload true) = false) →
          ∀ e ∈ elements, k.packing.isMiscounted c.payload true e = false) := by
  obtain ⟨rows, holds, tidy, _⟩ := Store.forall_fronts_iff_of_ofElements gathers.frame.1
  have fronts : (∀ row ∈ rows, row.head?.any (k.packing.isMiscounted c.payload true) = false)
      ↔ ∀ e ∈ rows.flatten, k.packing.isMiscounted c.payload true e = false :=
    tidy.forall_fronts_iff fun _ => Packing.isMiscounted_of_arc
  cases kept : k.keepsOutput with
  | false =>
    have never (e : k.packing.Element) : k.packing.isMiscounted c.payload true e = false :=
      Stock.isMiscounted_of_dropped kept true e
    exact ⟨fun _ => front_window holds (fronts.2 fun e _ => never e), fun _ _ e _ => never e⟩
  | true =>
    have indexed : k.packing.arity = .indexed ∧ k.keepsWeights = false := by
      cases k with
      | unweighted => exact ⟨rfl, rfl⟩
      | string | weightedString | unweightedAcceptor | acceptor => cases kept
    have stored := elements_of_gathers gathers indexed.1 indexed.2
    rw [holds.elements] at stored
    rw [stored] at fronts
    exact ⟨fun none_ => front_window holds (fronts.2 none_),
      fun small windows => fronts.1 (front_row holds small windows)⟩

end Gathered

/-! ## Machines packed from views -/

section Packed

variable {payload : k.packing.Payload} {v : View}

/-- What starts a state that was packed is the final weight, with the reserved label on both sides,
or an arc, which has another input label. -/
theorem labelOf_front_of_ofView (made : ofView? payload v = .ok c) {s : StateId}
    (plain : noLabel ∉ v.labels false s) (output : Bool) :
    ∀ e ∈ (c.window s).head?, k.packing.isFinalEntry c.payload 0 e = true →
      k.packing.labelOf c.payload output 0 e = noLabel := by
  intro e first final
  have same : c.payload = payload := (frame_of_ofView made).1
  rw [same] at final ⊢
  by_cases inside : v.InRange s
  · rw [window_of_inRange made inside] at first
    change e ∈ ((v.entries s).map (k.packing.pack payload s)).head? at first
    rw [List.head?_map] at first
    obtain ⟨a, entry, rfl⟩ := Option.mem_map.1 first
    rw [Stock.isFinalEntry_pack, beq_iff_eq] at final
    unfold View.entries at entry
    by_cases ends : v.isFinal s = true
    · rw [if_pos ends] at entry
      cases entry
      cases k <;> cases output <;> rfl
    · rw [if_neg ends] at entry
      exact absurd final (View.plain_of_labels plain a (List.mem_of_head? entry))
  · rw [window_of_not_inRange fun there => inside ((inRange_of_view made).1 there)] at first
    cases first

/-- The entries whose label is not the reserved one are among the arcs. -/
theorem filter_labelOf_sublist (made : ofView? payload v = .ok c) {s : StateId}
    (plain : noLabel ∉ v.labels false s) (output : Bool) :
    List.Sublist (((c.window s).map (k.packing.labelOf c.payload output s)).filter (· ≠ noLabel))
      (c.view.labels output s) := by
  have read : k.packing.labelOf c.payload output s = k.packing.labelOf c.payload output 0 :=
    funext (Stock.labelOf_eq output s)
  have marked := labelOf_front_of_ofView made plain output
  rw [labels_view, read]
  cases window : c.window s with
  | nil => exact List.nil_sublist _
  | cons e rest =>
    rw [window] at marked
    by_cases final : k.packing.isFinalEntry c.payload 0 e = true
    · have dropped := marked e rfl final
      have arcs : k.packing.arcEntries c.payload 0 (e :: rest) = rest := if_pos final
      rw [arcs, List.map_cons, dropped, List.filter_cons_of_neg (by decide)]
      exact List.filter_sublist
    · have arcs : k.packing.arcEntries c.payload 0 (e :: rest) = e :: rest := if_neg final
      rw [arcs]
      exact List.filter_sublist

/-- The counts of a packed machine are those of its arcs, stopping early or not. -/
theorem epsilons_of_ofView_eq (made : ofView? payload v = .ok c) (ordered : c.view.Ordered)
    {s : StateId} (plain : noLabel ∉ v.labels false s) (output : Bool) :
    c.epsilons output s = (c.view.arcs s).countP (fun a => a.label output == epsilon)
      ∧ c.epsilons output s
        = k.packing.countEpsilons c.payload s output false (c.window s) := by
  have stops : c.epsilons output s
      = k.packing.countEpsilons c.payload s output false (c.window s) := by
    change k.packing.countEpsilons c.payload s output _ _ = _
    cases declared : c.declares (.sorted output) with
    | false => rfl
    | true =>
      have ascends := ordered output (declares_iff.1 declared) s
      exact Packing.countEpsilons_of_ascending
        (ascends.sublist (filter_labelOf_sublist made plain output))
  have front : (c.window s).head?.any (k.packing.isMiscounted c.payload output) = false := by
    have marked := labelOf_front_of_ofView made plain output
    cases window : (c.window s).head? with
    | none => rfl
    | some e =>
      rw [window] at marked
      exact Packing.isMiscounted_of_marked (marked e rfl)
  refine ⟨?_, stops⟩
  rw [stops, countEpsilons_window, front]
  rfl

end Packed
end Compact

/-- A machine gathered from elements counts the empty input labels of its arcs. Its count of empty
output labels is one too many in every state whose entries start with a final one that has an empty
output label. Where output labels are left out there is no such entry; otherwise both counts are
right in every state exactly if none of the elements is one. -/
theorem epsilons_of_gathers (k : Stock) (algebra : Algebra) (width : OffsetWidth)
    (c : Compact (k.format algebra width)) (elements : List k.packing.Element)
    (gathers : c.Gathers elements) :
    (∀ s, c.view.inputEpsilons s = (c.view.arcs s).countP fun a => a.ilabel == epsilon)
      ∧ (∀ s, c.view.outputEpsilons s = (c.view.arcs s).countP (fun a => a.olabel == epsilon)
        + ((c.window s).head?.any (k.packing.isMiscounted c.payload true)).toNat)
      ∧ (k.keepsOutput = false → c.view.CountsEpsilons)
      ∧ ((∀ e ∈ elements, k.packing.isMiscounted c.payload true e = false) →
        c.view.CountsEpsilons)
      ∧ (c.store.numStates ≤ 2147483647 → c.view.CountsEpsilons →
        ∀ e ∈ elements, k.packing.isMiscounted c.payload true e = false) := by
  have input (s : StateId) :
      c.view.inputEpsilons s = (c.view.arcs s).countP fun a => a.ilabel == epsilon := by
    have front : (c.window s).head?.any (k.packing.isMiscounted c.payload false) = false := by
      cases (c.window s).head? with
      | none => rfl
      | some e => exact Packing.isMiscounted_input e
    have count := Compact.epsilons_of_gathers_eq gathers false s
    rw [front] at count
    exact count
  have output (s : StateId) : c.view.outputEpsilons s
      = (c.view.arcs s).countP (fun a => a.olabel == epsilon)
        + ((c.window s).head?.any (k.packing.isMiscounted c.payload true)).toNat :=
    Compact.epsilons_of_gathers_eq gathers true s
  obtain ⟨fronts, elements_of_fronts⟩ := Compact.fronts_of_gathers gathers
  have right : (∀ e ∈ elements, k.packing.isMiscounted c.payload true e = false) →
      c.view.CountsEpsilons := by
    intro none_ s
    refine ⟨input s, ?_⟩
    rw [output, fronts none_ s]
    rfl
  refine ⟨input, output, fun dropped => ?_, right, fun small counts => ?_⟩
  · exact right fun e _ => Stock.isMiscounted_of_dropped dropped true e
  · refine elements_of_fronts small fun s => ?_
    have surplus := output s
    rw [(counts s).2] at surplus
    cases front : (c.window s).head?.any (k.packing.isMiscounted c.payload true) with
    | false => rfl
    | true =>
      rw [front, Bool.toNat_true] at surplus
      omega

/-- Transducers without weights, over the tropical semiring. -/
abbrev transducers : Format := Stock.unweighted.format .tropical .four

/-- A final entry and two arcs behind it, each with an empty label on one side. -/
def emptyLabels : List LabelPairState :=
  [⟨noLabel, noLabel, noState⟩, ⟨epsilon, 7, 0⟩, ⟨3, epsilon, 0⟩]

def gatheredLabels : Compact transducers := Compact.ofElements (F := transducers) () emptyLabels

theorem epsilons_gatheredLabels : gatheredLabels.view.CountsEpsilons
    ∧ gatheredLabels.view.inputEpsilons 0 = 1 ∧ gatheredLabels.view.outputEpsilons 0 = 1 := by
  have made : Compact.ofElements? (F := transducers) () emptyLabels = .ok gatheredLabels := by
    rfl
  have checked : (emptyLabels.all fun e => !Packing.unweighted.isMiscounted () true e) = true := by
    decide
  have none_ : ∀ e ∈ emptyLabels, Packing.unweighted.isMiscounted () true e = false := by
    intro e member
    simpa using List.all_eq_true.1 checked e member
  obtain ⟨_, _, _, right, _⟩ := epsilons_of_gathers .unweighted .tropical .four gatheredLabels
    emptyLabels (Or.inl ⟨(), made⟩)
  exact ⟨right none_, by rfl, by rfl⟩

/-- A final entry alone, with an empty output label. -/
def emptyMark : Compact transducers :=
  Compact.ofElements (F := transducers) () [LabelPairState.mk noLabel epsilon noState]

/-- The only state has no arc, and one empty output label is counted. -/
theorem not_countsEpsilons_emptyMark :
    emptyMark.Gathers [LabelPairState.mk noLabel epsilon noState]
      ∧ emptyMark.view.arcs 0 = [] ∧ emptyMark.view.outputEpsilons 0 = 1
      ∧ ¬ emptyMark.view.CountsEpsilons := by
  have made : Compact.ofElements? (F := transducers) ()
      [LabelPairState.mk noLabel epsilon noState] = .ok emptyMark := by
    rfl
  have arcs : emptyMark.view.arcs 0 = [] := by rfl
  have counted : emptyMark.view.outputEpsilons 0 = 1 := by rfl
  refine ⟨Or.inl ⟨(), made⟩, arcs, counted, fun counts => ?_⟩
  have right := (counts 0).2
  rw [arcs, counted] at right
  cases right

/-- Along any chain of packings from a machine whose arcs do not have the reserved input label, a
packed machine counts the empty labels of its arcs, and of the arcs of the first machine. Where it
declares that labels ascend its scan stops early, and finds the same as one that does not. -/
theorem epsilons_of_ofView {m : Machine}
    (plain : ∀ state ∈ m.states, ∀ a ∈ state.arcs, a.ilabel ≠ noLabel) {v : View}
    (source : View.PackedFrom m v) {k : Stock} {algebra : Algebra} {width : OffsetWidth}
    {payload : k.packing.Payload} {c : Compact (k.format algebra width)}
    (made : Compact.ofView? payload v = .ok c) :
    c.view.CountsEpsilons
      ∧ (∀ s, c.view.inputEpsilons s = m.view.inputEpsilons s
        ∧ c.view.outputEpsilons s = m.view.outputEpsilons s)
      ∧ ∀ s output, k.packing.countEpsilons c.payload s output (c.declares (.sorted output))
          (c.window s) = k.packing.countEpsilons c.payload s output false (c.window s) := by
  have labelled := source.labelled plain
  have packed := labelled.pack plain made
  have counts (output : Bool) (s : StateId) :=
    Compact.epsilons_of_ofView_eq made packed.ordered (labelled.plain plain s) output
  have same (output : Bool) (s : StateId) :
      (c.view.arcs s).countP (fun a => a.label output == epsilon)
        = (m.view.arcs s).countP fun a => a.label output == epsilon := by
    rw [View.countP_arcs, packed.labels, ← View.countP_arcs]
  refine ⟨fun s => ⟨(counts false s).1, (counts true s).1⟩, fun s => ⟨?_, ?_⟩, ?_⟩
  · exact (counts false s).1.trans (same false s)
  · exact (counts true s).1.trans (same true s)
  · intro s output
    exact (counts output s).2

/-- Output labels ascend from below the reserved one, which occurs among them; input labels do
not. -/
def lowLabels : Machine :=
  ⟨0, [⟨Weight.one, [⟨9, -5, Weight.one, 0⟩, ⟨epsilon, noLabel, Weight.one, 0⟩,
    ⟨-3, epsilon, Weight.one, 0⟩, ⟨epsilon, 2, Weight.one, 0⟩]⟩], SymbolPair.none⟩

def packedLabels : Compact transducers := Compact.ofView () lowLabels.view

theorem epsilons_packedLabels :
    packedLabels.declares .outputSorted = true ∧ packedLabels.view.CountsEpsilons
      ∧ packedLabels.view.inputEpsilons 0 = 2 ∧ packedLabels.view.outputEpsilons 0 = 1 := by
  have packed : Compact.ofView? () lowLabels.view = .ok packedLabels := by cbv
  have plain : ∀ state ∈ lowLabels.states, ∀ a ∈ state.arcs, a.ilabel ≠ noLabel := by decide
  obtain ⟨right, same, _⟩ := epsilons_of_ofView plain .machine packed
  obtain ⟨input, output⟩ := same 0
  exact ⟨by cbv, right, input.trans (by rfl), output.trans (by rfl)⟩

end Transducer
