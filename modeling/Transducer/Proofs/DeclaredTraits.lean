import Transducer.Proofs.Preservation
import Transducer.Proofs.SurveyOutline
/-!
# The traits that a packed machine declares

A packed machine takes its word from what its source declares and from what its packing demands;
it does not survey what it shows. The word is right all the same: packing keeps the outline of a
machine, and a survey sees no more than that. Main statement: along any chain of packings from a
machine without the reserved label, every packed machine declares what a survey of itself finds,
which is what a survey of the first machine finds (`properties_eq_survey`).
-/
namespace Transducer

open TraitWord

/-! ## Exact words -/

/-- What is joined outside of a mask does not show through it. -/
theorem TraitWord.or_and_eq {word other mask : UInt64} (outside : other &&& mask = 0) :
    (word ||| other) &&& mask = word &&& mask := by
  refine eq_of_testBit fun i => ?_
  have clear := congrArg (fun bits : UInt64 => bits.toNat.testBit i) outside
  simp only [UInt64.toNat_and, UInt64.toNat_or, Nat.testBit_and, Nat.testBit_or] at clear ⊢
  rw [Bool.and_or_distrib_right, clear]
  simp

namespace View

/-- The word of a view has the verdicts of a survey, and no others. -/
def Exact (v : View) : Prop := v.properties &&& copied = v.survey

/-- An exact view answers as its survey does, whichever way the question is settled. -/
theorem Exact.test_eq {v : View} (declared : v.Exact) {mask : UInt64}
    (inside : mask &&& copied = mask) : v.test mask = v.survey &&& mask := by
  have said (i : Nat) := congrArg (fun word : UInt64 => word.toNat.testBit i) declared
  have asked (i : Nat) := congrArg (fun word : UInt64 => word.toNat.testBit i) inside
  simp only [UInt64.toNat_and, Nat.testBit_and] at said asked
  unfold test
  split
  · rw [← declared, UInt64.and_assoc, UInt64.and_comm copied, inside]
  · refine eq_of_testBit fun i => ?_
    simp only [UInt64.toNat_and, UInt64.toNat_or, Nat.testBit_and, Nat.testBit_or, ← said i]
    -- A bit that is asked for is copied, so a declared bit of the lowest three is surveyed, too.
    cases bit : mask.toNat.testBit i with
    | false => simp
    | true =>
      have copied_ : copied.toNat.testBit i = true := by simpa [bit] using asked i
      simp only [copied_, Bool.and_true]
      cases v.properties.toNat.testBit i <;> rfl

theorem survey_and_copied (v : View) : v.survey &&& copied = v.survey :=
  ofVerdict_and_copied _

/-- A copy of an exact view declares the survey of that view. -/
theorem Exact.declaredBy_eq {v : View} (declared : v.Exact) {k : Stock}
    (compatible : v.test k.packing.required = k.packing.required) :
    Compact.declaredBy k.packing v = v.survey ||| expanded := by
  have demanded : k.packing.required &&& copied = k.packing.required := by
    cases k <;> decide
  have found : v.survey &&& k.packing.required = k.packing.required := by
    rw [← declared.test_eq demanded, compatible]
  unfold Compact.declaredBy
  rw [declared.test_eq (by decide), survey_and_copied]
  congr 1
  refine eq_of_testBit fun i => ?_
  have here := congrArg (fun word : UInt64 => word.toNat.testBit i) found
  simp only [UInt64.toNat_and, Nat.testBit_and] at here
  rw [UInt64.toNat_or, Nat.testBit_or, ← here]
  cases v.survey.toNat.testBit i <;> rfl

end View

/-! ## Outlines of packed machines -/

/-- Equal numbers are equal to the same numbers. -/
theorem Weight.same_congr {a b : Weight} (equal : a.same b = true) (c : Weight) :
    a.same c = b.same c := by
  have back : b.same a = true := by rwa [Weight.same_comm]
  rw [Bool.eq_iff_iff]
  exact ⟨Weight.same_trans back, Weight.same_trans equal⟩

theorem Weight.Agree.finalOutline_eq {exact_ : Bool} {a b : Weight}
    (agree : Weight.Agree exact_ a b) : b.finalOutline = a.finalOutline := by
  cases exact_ with
  | true => rw [Weight.agree_true.1 agree]
  | false =>
    have equal := Weight.same_congr (Weight.agree_false.1 agree)
    simp only [finalOutline, outline, Machine.costs, isZero, isOne, equal]
    rfl

namespace Compact

variable {k : Stock} {algebra : Algebra} {width : OffsetWidth} {payload : k.packing.Payload}
  {v : View} {c : Compact (k.format algebra width)}

/-- A dropped weight is that of no path or that of the empty path, and a survey does not tell
these apart on an arc. -/
theorem outline_restored (h : ofView? payload v = .ok c) (bare : v.Bare) (sound : v.Sound)
    {s : StateId} {a : Arc} (member : a ∈ v.arcs s) (plain : a.ilabel ≠ noLabel) :
    (k.restored s Fields.all a).outline = a.outline := by
  have checked : checkSource k.packing v = .ok () := (ofView?_eq_ok_iff.1 h).1
  have compatible := (checkSource_eq_ok_iff.1 checked).2
  have olabel := View.olabel_restored sound bare compatible member
  have nextstate := View.nextstate_restored sound bare compatible member (Or.inr plain)
  have weight : (k.restored s Fields.all a).weight.outline = a.weight.outline := by
    change (if (k.keepsWeights && true) = true then a.weight else Weight.one).outline = _
    cases kept : k.keepsWeights with
    | true => rfl
    | false =>
      have free := obeys_of_required h sound bare (Stock.says_required_weighted kept)
      simp [Weight.outline, (free s).2 a member, Machine.costs_one]
  unfold Arc.outline
  rw [weight]
  change Arc.mk a.ilabel (k.restored s Fields.all a).olabel _ (k.restored s Fields.all a).nextstate
    = _
  rw [olabel, nextstate]

theorem states_of_ofView (h : ofView? payload v = .ok c) : c.view.states = v.states := by
  have numStates : c.store.numStates = v.numStates := (frame_of_ofView h).2.2.2.2.2.1
  unfold View.states
  rw [show c.view.numStates = v.numStates from numStates]

/-- Packing keeps the outline of a machine. -/
theorem outline_of_ofView (h : ofView? payload v = .ok c) (bare : v.Bare) (sound : v.Sound)
    (small : v.numStates ≤ 2147483647)
    (plain : ∀ s ∈ v.states, ∀ a ∈ v.arcs s, a.ilabel ≠ noLabel) :
    c.view.machine.outline = v.machine.outline := by
  obtain ⟨_, _, symbols, _, start, _⟩ := frame_of_ofView h
  have each : ∀ s ∈ v.states,
      State.outline ⟨c.final s, c.arcs s⟩ = State.outline ⟨v.final s, v.arcs s⟩ := by
    intro s state
    have inside := View.inRange_of_mem_states small state
    have final := (agree_final h bare sound inside (plain s state)).finalOutline_eq
    have arcs : (c.arcs s).map Arc.outline = (v.arcs s).map Arc.outline := by
      rw [arcs_of_ofView h inside, arcsAmong_entries (plain s state), List.map_map]
      exact List.map_congr_left fun a member =>
        outline_restored h bare sound member (plain s state a member)
    unfold State.outline
    rw [final, arcs]
  unfold View.machine Machine.outline
  simp only [states_of_ofView h, List.map_map]
  change Machine.mk c.store.start (v.states.map fun s => State.outline ⟨c.final s, c.arcs s⟩)
    c.symbols = _
  rw [start, symbols, List.map_congr_left each]
  rfl

end Compact

/-! ## Chains of packings -/

namespace View

/-- The views that come from one machine by packing it any number of times. -/
inductive PackedFrom (m : Machine) : View → Prop where
  | machine : PackedFrom m m.view
  | packed {k : Stock} {algebra : Algebra} {width : OffsetWidth} {payload : k.packing.Payload}
      {v : View} {c : Compact (k.format algebra width)} (source : PackedFrom m v)
      (made : Compact.ofView? payload v = .ok c) : PackedFrom m c.view

/-- A view shows the outline of a machine and declares the survey of what it shows. -/
structure Copies (m : Machine) (v : View) : Prop where
  bare : v.Bare
  sound : v.Sound
  outline : v.machine.outline = m.outline
  declared : v.Exact

variable {m : Machine} {v : View}

theorem survey_eq_of_outline_eq (same : v.machine.outline = m.outline) :
    v.survey = m.survey := by
  rw [survey, ← Machine.survey_outline, same, Machine.survey_outline]

theorem Copies.numStates_eq (copies : Copies m v) : v.numStates = m.numStates := by
  have states := congrArg Machine.numStates copies.outline
  rw [Machine.numStates_outline, Machine.numStates_outline] at states
  rw [← states]
  simp [Machine.numStates, machine]

/-- Labels are part of the outline. -/
theorem Copies.plain (copies : Copies m v)
    (plain : ∀ state ∈ m.states, ∀ a ∈ state.arcs, a.ilabel ≠ noLabel) :
    ∀ s ∈ v.states, ∀ a ∈ v.arcs s, a.ilabel ≠ noLabel := by
  intro s state a member
  have shown : State.outline ⟨v.final s, v.arcs s⟩ ∈ v.machine.outline.states :=
    List.mem_map_of_mem (List.mem_map_of_mem state)
  rw [copies.outline] at shown
  obtain ⟨origin, there, same⟩ := List.mem_map.1 shown
  have arc : a.outline ∈ origin.outline.arcs := by
    rw [same]
    exact List.mem_map_of_mem member
  obtain ⟨b, inside, like⟩ := List.mem_map.1 arc
  have label : b.outline.ilabel = a.outline.ilabel := congrArg Arc.ilabel like
  change b.ilabel = a.ilabel at label
  rw [← label]
  exact plain origin there b inside

/-- A machine that can be changed declares its survey. -/
theorem copies_view (small : m.numStates ≤ 2147483647) : Copies m m.view := by
  have shown : m.view.machine = m := Machine.machine_view small
  refine ⟨m.bare_view, m.sound_view, by rw [shown], ?_⟩
  change (m.survey ||| mutable ||| expanded) &&& copied = m.view.machine.survey
  rw [shown, or_and_eq (by decide), or_and_eq (by decide)]
  exact ofVerdict_and_copied _

section

variable {k : Stock} {algebra : Algebra} {width : OffsetWidth} {payload : k.packing.Payload}
  {c : Compact (k.format algebra width)}

/-- Packing a copy adds nothing to its word but that the states are counted. -/
theorem Copies.properties_of_ofView (copies : Copies m v)
    (made : Compact.ofView? payload v = .ok c) : c.properties = m.survey ||| expanded := by
  have checked : Compact.checkSource k.packing v = .ok () := (Compact.ofView?_eq_ok_iff.1 made).1
  rw [(Compact.frame_of_ofView made).2.1, ← survey_eq_of_outline_eq copies.outline]
  exact copies.declared.declaredBy_eq (Compact.checkSource_eq_ok_iff.1 checked).2

/-- A packed copy is a copy. -/
theorem Copies.pack (copies : Copies m v) (small : m.numStates ≤ 2147483647)
    (plain : ∀ state ∈ m.states, ∀ a ∈ state.arcs, a.ilabel ≠ noLabel)
    (made : Compact.ofView? payload v = .ok c) : Copies m c.view := by
  have numbered : v.numStates ≤ 2147483647 := by
    rw [copies.numStates_eq]
    exact small
  have outline : c.view.machine.outline = m.outline :=
    (Compact.outline_of_ofView made copies.bare copies.sound numbered (copies.plain plain)).trans
      copies.outline
  refine ⟨c.bare_view, Compact.sound_of_ofView made copies.sound copies.bare, outline, ?_⟩
  change c.properties &&& copied = c.view.survey
  rw [copies.properties_of_ofView made, survey_eq_of_outline_eq outline, or_and_eq (by decide)]
  exact ofVerdict_and_copied _

end

theorem PackedFrom.copies (source : PackedFrom m v) (small : m.numStates ≤ 2147483647)
    (plain : ∀ state ∈ m.states, ∀ a ∈ state.arcs, a.ilabel ≠ noLabel) : Copies m v := by
  induction source with
  | machine => exact copies_view small
  | packed source made ih => exact ih.pack small plain made

end View

/-- Along any chain of packings from a machine without the reserved label, a packed machine
declares what a survey of it finds, and what a survey of the first machine finds. -/
theorem properties_eq_survey {m : Machine} (small : m.numStates ≤ 2147483647)
    (plain : ∀ state ∈ m.states, ∀ a ∈ state.arcs, a.ilabel ≠ noLabel) {v : View}
    (source : View.PackedFrom m v) {k : Stock} {algebra : Algebra} {width : OffsetWidth}
    {payload : k.packing.Payload} {c : Compact (k.format algebra width)}
    (made : Compact.ofView? payload v = .ok c) :
    c.properties = c.view.survey ||| expanded ∧ c.properties = m.survey ||| expanded := by
  have copies := source.copies small plain
  have word := copies.properties_of_ofView made
  refine ⟨?_, word⟩
  rw [View.survey_eq_of_outline_eq (copies.pack small plain made).outline]
  exact word

/-- A loop through two states, with an arc of no path and one of weight minus zero. -/
def loop : Machine :=
  ⟨0, [⟨Weight.zero, [⟨2, 2, Weight.zero, 1⟩, ⟨0, 0, Weight.one, 0⟩]⟩,
    ⟨Weight.one, [⟨1, 1, ⟨⟨0x80000000⟩⟩, 0⟩]⟩], SymbolPair.none⟩

def packedLoop : Compact (Stock.unweighted.format .tropical .four) :=
  Compact.ofView () loop.view

def repackedLoop : Compact (Stock.unweightedAcceptor.format .tropical .one) :=
  Compact.ofView () packedLoop.view

/-- Both weights come back as that of the empty path, and the word is right. -/
theorem properties_repackedLoop :
    repackedLoop.properties = repackedLoop.view.survey ||| expanded
      ∧ repackedLoop.properties = loop.survey ||| expanded := by
  have packed : Compact.ofView? () loop.view = .ok packedLoop := by cbv
  have repacked : Compact.ofView? () packedLoop.view = .ok repackedLoop := by cbv
  have plain : ∀ state ∈ loop.states, ∀ a ∈ state.arcs, a.ilabel ≠ noLabel := by decide
  exact properties_eq_survey (by decide) plain (.packed .machine packed) repacked

end Transducer
