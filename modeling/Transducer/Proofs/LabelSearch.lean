import Transducer.Proofs.LabelOrder
/-!
# Seeking a label

A cursor seeks a label by halving if it was promised that input labels ascend, and from the front
otherwise. Halving finds where a test that holds up to some place stops to hold
(`halving_splits`); the test here is that a label is below the one that is sought, so it finds the
first of several equal labels, and the two searches answer alike (`Cursor.find?_eq_findIdx?`). The
promise is the word of the packed machine, and is kept. Main statement: in a machine that is packed
from one without the reserved input label, seeking finds the first arc with the label or ends behind
all arcs, from wherever the cursor stands (`seekLabel_of_ofView`).
-/
namespace Transducer

/-- Halving separates the places at which the test holds from those at which it fails. -/
theorem halving_splits {test : Nat → Bool} (falls : ∀ i j, i ≤ j → test j = true → test i = true)
    (base size : Nat) :
    (∀ i, base ≤ i → i < halving test base size → test i = true)
      ∧ ∀ i, halving test base size ≤ i → i < base + size → test i = false := by
  fun_induction halving test base size with
  | case1 base size small holds =>
    obtain ⟨rfl, holds⟩ := holds
    constructor
    · intro i above below
      rwa [show i = base by omega]
    · intro i above below
      omega
  | case2 base size small fails =>
    constructor
    · intro i above below
      omega
    · intro i above below
      have last : size = 1 ∧ i = base := by omega
      rw [last.2]
      exact Bool.eq_false_iff.2 fun holds => fails ⟨last.1, holds⟩
  | case3 base size large half ih =>
    obtain ⟨before, after⟩ := ih
    have halved : half = size / 2 := rfl
    by_cases holds : test (base + half) = true
    · rw [dif_pos holds] at before after
      rw [if_pos holds]
      constructor
      · intro i above below
        rcases Nat.lt_or_ge i (base + half) with front | back
        · exact falls i (base + half) (Nat.le_of_lt front) holds
        · exact before i back below
      · intro i above below
        exact after i above (by omega)
    · rw [dif_neg holds] at before after
      rw [if_neg holds]
      constructor
      · exact before
      · intro i above below
        rcases Nat.lt_or_ge i (base + (size - half)) with front | back
        · exact after i above front
        · exact Bool.eq_false_iff.2 fun later => holds (falls (base + half) i (by omega) later)

namespace Cursor

variable {P : Packing} {c : Cursor P} {label : Label}

/-- Whether the label at a position is below another one. -/
def isBelow (c : Cursor P) (label : Label) (i : Nat) : Bool :=
  c.elements[i]?.any fun e => P.inputLabel c.payload c.state e < label

theorem isBelow_iff {i : Nat} (inside : i < c.elements.length) :
    c.isBelow label i = true ↔ P.inputLabel c.payload c.state c.elements[i] < label := by
  simp [isBelow, inside]

/-- Input labels ascend from arc to arc. -/
def Ascends (c : Cursor P) : Prop :=
  (c.elements.map (P.inputLabel c.payload c.state)).Pairwise (· ≤ ·)

theorem Ascends.le (ascends : c.Ascends) {i j : Nat} (h : i ≤ j) (inside : j < c.elements.length)
    (before : i < c.elements.length) : P.inputLabel c.payload c.state c.elements[i]
      ≤ P.inputLabel c.payload c.state c.elements[j] := by
  rcases Nat.eq_or_lt_of_le h with rfl | lt
  · exact Int32.le_refl _
  · have ordered := List.pairwise_iff_getElem.1 ascends i j (by simpa using before)
      (by simpa using inside) lt
    simpa using ordered

/-- Where labels ascend, those below a label come first. -/
theorem Ascends.falls (ascends : c.Ascends) (label : Label) (i j : Nat) (h : i ≤ j)
    (below : c.isBelow label j = true) : c.isBelow label i = true := by
  have inside : j < c.elements.length := by
    by_contra past
    simp [isBelow, List.getElem?_eq_none (Nat.le_of_not_lt past)] at below
  have before : i < c.elements.length := Nat.lt_of_le_of_lt h inside
  rw [isBelow_iff inside] at below
  rw [isBelow_iff before]
  exact Int32.lt_of_le_of_lt (ascends.le h inside before) below

section Place

variable {place : Nat} (before : ∀ i < place, c.isBelow label i = true)
  (after : ∀ i, place ≤ i → i < c.elements.length → c.isBelow label i = false)
include before

theorem label_ne_of_lt {i : Nat} (lt : i < place) (inside : i < c.elements.length) :
    P.inputLabel c.payload c.state c.elements[i] ≠ label := by
  intro equal
  have below := (isBelow_iff inside).1 (before i lt)
  rw [equal] at below
  exact Int32.lt_irrefl below

include after

/-- If a label occurs at all, it occurs at the first place that is not below it. -/
theorem Ascends.label_at_place (ascends : c.Ascends) {i : Nat} (inside : i < c.elements.length)
    (equal : P.inputLabel c.payload c.state c.elements[i] = label) :
    ∃ here : place < c.elements.length,
      P.inputLabel c.payload c.state c.elements[place] = label := by
  have ge : place ≤ i := Nat.le_of_not_lt fun lt => label_ne_of_lt before lt inside equal
  have here : place < c.elements.length := Nat.lt_of_le_of_lt ge inside
  have notBelow := after place (Nat.le_refl place) here
  rw [Bool.eq_false_iff, Ne, isBelow_iff here, Int32.not_lt] at notBelow
  have notAbove := ascends.le ge inside here
  rw [equal] at notAbove
  exact ⟨here, Int32.le_antisymm notAbove notBelow⟩

/-- A place between the labels below another one and the rest is that of its first occurrence, or
there is none. -/
theorem Ascends.findIdx?_eq (ascends : c.Ascends) :
    c.elements.findIdx? (fun e => P.inputLabel c.payload c.state e == label)
      = if c.elements[place]?.any fun e => P.inputLabel c.payload c.state e == label then some place
        else none := by
  by_cases found : ∃ here : place < c.elements.length,
      P.inputLabel c.payload c.state c.elements[place] = label
  · obtain ⟨here, equal⟩ := found
    rw [if_pos (by simp [here, equal]), List.findIdx?_eq_some_iff_getElem]
    refine ⟨here, by simp [equal], fun i lt same => ?_⟩
    exact label_ne_of_lt before lt (Nat.lt_trans lt here) (beq_iff_eq.1 same)
  · have missing : (c.elements[place]?.any fun e =>
        P.inputLabel c.payload c.state e == label) = false := by
      by_cases here : place < c.elements.length
      · simpa [here] using fun equal => found ⟨here, equal⟩
      · simp [here]
    rw [missing, if_neg Bool.false_ne_true, List.findIdx?_eq_none_iff]
    intro e member
    obtain ⟨i, inside, rfl⟩ := List.getElem_of_mem member
    exact beq_eq_false_iff_ne.2 fun equal =>
      found (ascends.label_at_place before after inside equal)

end Place

/-- Both searches find the first arc with a label. -/
theorem find?_eq_findIdx? (ascends : c.sorted = true → c.Ascends) (label : Label) :
    c.find? label = c.elements.findIdx? fun e => P.inputLabel c.payload c.state e == label := by
  unfold find?
  cases sorted : c.sorted with
  | false => rfl
  | true =>
    obtain ⟨before, after⟩ := halving_splits ((ascends sorted).falls label) 0 c.elements.length
    rw [Nat.zero_add] at after
    have below := fun i => before i (Nat.zero_le i)
    exact ((ascends sorted).findIdx?_eq below after).symm

/-- Without the promise a cursor seeks from the front, and gets to the same place. -/
theorem seekLabel_unsorted (ascends : c.sorted = true → c.Ascends) (label : Label) :
    { c with sorted := false }.seekLabel label
      = ((c.seekLabel label).1, { (c.seekLabel label).2 with sorted := false }) := by
  have plain : { c with sorted := false }.find? label = c.find? label :=
    (find?_eq_findIdx? ascends label).symm
  unfold seekLabel
  rw [plain]
  cases c.find? label <;> rfl

/-- What seeking a label among arcs comes to: a cursor that only moved, to the first arc with the
label if there is one, and behind all arcs otherwise. -/
structure Seeks (before : Cursor P) (arcs : List Arc) (label : Label) (found : Bool)
    (after : Cursor P) : Prop where
  moved : after = before.seek after.position
  found_iff : found = true ↔ ∃ a ∈ arcs, a.ilabel = label
  hit : found = true → ∃ a, arcs[after.position]? = some a ∧ a.ilabel = label
  first : found = true → ∀ i < after.position, ∀ a, arcs[i]? = some a → a.ilabel ≠ label
  miss : found = false → after.position = arcs.length ∧ after.done = true

theorem seeks_of_ilabels {arcs : List Arc}
    (read : arcs.map Arc.ilabel = c.elements.map (P.inputLabel c.payload c.state))
    (ascends : c.sorted = true → c.Ascends) (label : Label) :
    c.Seeks arcs label (c.seekLabel label).1 (c.seekLabel label).2 := by
  have length : arcs.length = c.elements.length := by simpa using congrArg List.length read
  have search : c.find? label = arcs.findIdx? (·.ilabel == label) := by
    have labels := congrArg (List.findIdx? (· == label)) read
    rw [List.findIdx?_map, List.findIdx?_map] at labels
    rw [find?_eq_findIdx? ascends]
    exact labels.symm
  unfold seekLabel
  rw [search]
  cases place : arcs.findIdx? (·.ilabel == label) with
  | none =>
    have missing := List.findIdx?_eq_none_iff.1 place
    refine ⟨rfl, ?_, Bool.noConfusion, Bool.noConfusion, fun _ => ⟨length.symm, ?_⟩⟩
    · simpa using missing
    · simp [done, seek]
  | some i =>
    obtain ⟨inside, equal, before⟩ := List.findIdx?_eq_some_iff_getElem.1 place
    have here : arcs[i].ilabel = label := by simpa using equal
    refine ⟨rfl, ?_, fun _ => ⟨arcs[i], List.getElem?_eq_getElem inside, here⟩, ?_,
      Bool.noConfusion⟩
    · simpa using ⟨arcs[i], List.getElem_mem inside, here⟩
    · intro _ j lt a there
      obtain ⟨within, rfl⟩ := List.getElem?_eq_some_iff.1 there
      simpa using before j lt

end Cursor

namespace Compact

variable {k : Stock} {algebra : Algebra} {width : OffsetWidth}
  {c : Compact (k.format algebra width)}

/-- The labels that a cursor compares are those of the arcs. -/
theorem ilabels_cursor (c : Compact (k.format algebra width)) (s : StateId) :
    (c.view.arcs s).map Arc.ilabel
      = (c.cursor s).elements.map (k.packing.inputLabel c.payload s) := by
  have uniform := k.uniform c.payload
  change (c.arcs s).map Arc.ilabel = _
  rw [arcs_eq, List.map_map]
  refine List.map_congr_left fun e _ => ?_
  rw [show k.packing.inputLabel c.payload s e = _ from uniform.ilabel s e Fields.onlyInput]
  exact uniform.ilabel s e Fields.all

/-- A cursor is promised what the machine declares. -/
theorem ascends_cursor (ordered : c.view.Ordered) (s : StateId)
    (sorted : (c.cursor s).sorted = true) : (c.cursor s).Ascends := by
  have ascends := ordered false (declares_iff.1 sorted) s
  change ((c.cursor s).elements.map (k.packing.inputLabel c.payload s)).Pairwise (· ≤ ·)
  rw [← ilabels_cursor]
  exact ascends

end Compact

/-- In a machine packed, by whatever chain of packings, from one whose arcs do not have the reserved
input label, seeking a label from any position of a cursor finds whether some arc of the state has
it, and gets to the first one that does or behind all arcs; nothing else of the cursor changes. A
search from the front finds the same in the same place. -/
theorem seekLabel_of_ofView {m : Machine}
    (plain : ∀ state ∈ m.states, ∀ a ∈ state.arcs, a.ilabel ≠ noLabel) {v : View}
    (source : View.PackedFrom m v) {k : Stock} {algebra : Algebra} {width : OffsetWidth}
    {payload : k.packing.Payload} {c : Compact (k.format algebra width)}
    (made : Compact.ofView? payload v = .ok c) (s : StateId) (label : Label) (position : Nat)
    (fields : Fields) :
    let before : Cursor k.packing := { c.cursor s with position := position, fields := fields }
    let front : Cursor k.packing := { before with sorted := false }
    before.Seeks (c.view.arcs s) label (before.seekLabel label).1 (before.seekLabel label).2
      ∧ (front.seekLabel label).1 = (before.seekLabel label).1
      ∧ (front.seekLabel label).2.position = (before.seekLabel label).2.position := by
  have packed := (source.labelled plain).pack plain made
  have ascends := Compact.ascends_cursor packed.ordered s
  intro before front
  have promised : before.sorted = true → before.Ascends := ascends
  have same : front.seekLabel label = _ := Cursor.seekLabel_unsorted promised label
  rw [same]
  exact ⟨Cursor.seeks_of_ilabels (Compact.ilabels_cursor c s) promised label, rfl, rfl⟩

/-- Arcs that ascend by their input labels, three of them with the same one. -/
def repeatedLabels : Machine :=
  ⟨0, [⟨Weight.one, [⟨-7, 1, Weight.one, 0⟩, ⟨2, 4, Weight.one, 0⟩, ⟨2, 3, Weight.one, 0⟩,
    ⟨2, 9, Weight.one, 0⟩, ⟨5, 1, Weight.one, 0⟩]⟩], SymbolPair.none⟩

def packedRepeats : Compact (Stock.unweighted.format .tropical .four) :=
  Compact.ofView () repeatedLabels.view

/-- From behind the arcs, the first of the equal labels is found, and one between two labels of the
machine is not. -/
theorem seekLabel_packedRepeats :
    packedRepeats.declares .inputSorted = true
      ∧ ((packedRepeats.cursor 0).seek 9).Seeks (packedRepeats.view.arcs 0) 2 true
        ((packedRepeats.cursor 0).seek 1)
      ∧ ((packedRepeats.cursor 0).seek 9).Seeks (packedRepeats.view.arcs 0) 3 false
        ((packedRepeats.cursor 0).seek 5) := by
  have packed : Compact.ofView? () repeatedLabels.view = .ok packedRepeats := by cbv
  have plain : ∀ state ∈ repeatedLabels.states, ∀ a ∈ state.arcs, a.ilabel ≠ noLabel := by decide
  have found : ((packedRepeats.cursor 0).seek 9).seekLabel 2
      = (true, (packedRepeats.cursor 0).seek 1) := by cbv
  have missed : ((packedRepeats.cursor 0).seek 9).seekLabel 3
      = (false, (packedRepeats.cursor 0).seek 5) := by cbv
  have hit : ((packedRepeats.cursor 0).seek 9).Seeks (packedRepeats.view.arcs 0) 2
      (((packedRepeats.cursor 0).seek 9).seekLabel 2).1
      (((packedRepeats.cursor 0).seek 9).seekLabel 2).2 :=
    (seekLabel_of_ofView plain .machine packed 0 2 9 Fields.all).1
  have miss : ((packedRepeats.cursor 0).seek 9).Seeks (packedRepeats.view.arcs 0) 3
      (((packedRepeats.cursor 0).seek 9).seekLabel 3).1
      (((packedRepeats.cursor 0).seek 9).seekLabel 3).2 :=
    (seekLabel_of_ofView plain .machine packed 0 3 9 Fields.all).1
  rw [found] at hit
  rw [missed] at miss
  exact ⟨by cbv, hit, miss⟩

end Transducer
