import Transducer.Proofs.LabelOrder
import Transducer.Proofs.StateGraph
/-!
# The traits of arcs

A survey can be made in one pass over the arcs. The pass keeps a flag for every trait of arcs, and
of the state at hand the labels that were seen and the last of them, for each side; these it forgets
on entering the next state (`LabelNotes.enter`). On leaving a state its flags tell what is true of
the states behind it (`Scan.Tells.pass`), so at the end they are the verdicts of the survey, and the
targets noted by the way give the graph for the traits of paths (`Scan.holds_run`). Main statement:
what each trait of arcs means, in terms of the positions of the arcs, and that the pass finds the
word of the survey, which has one bit of every pair (`survey_decides_arcs`).
-/
namespace Transducer

open TraitWord

namespace Trait

/-- The trait that no state has two arcs with the same label on one side. -/
def deterministic (output : Bool) : Trait :=
  if output then .outputDeterministic else .inputDeterministic

/-- The trait that some arc has the empty label on one side. -/
def emptyLabels (output : Bool) : Trait := if output then .outputEpsilons else .inputEpsilons

end Trait

/-- What a pass over the arcs notes of the labels on one side: flags for all states so far, and of
the state at hand the labels that were seen and the last of them. -/
structure LabelNotes where
  distinct : Bool
  ascending : Bool
  emptySeen : Bool
  seen : List Label
  last : Option Label

namespace LabelNotes

def start : LabelNotes := ⟨true, true, false, [], none⟩

/-- On entering a state nothing of it has been seen. -/
def enter (notes : LabelNotes) : LabelNotes := { notes with seen := [], last := none }

/-- Notes the label of the next arc. -/
def note (notes : LabelNotes) (label : Label) : LabelNotes where
  distinct := notes.distinct && !notes.seen.contains label
  ascending := notes.ascending && notes.last.all (· ≤ label)
  emptySeen := notes.emptySeen || label == epsilon
  seen := notes.seen.insert label
  last := some label

variable (notes : LabelNotes) (labels : List Label)

theorem distinct_foldl_note : (labels.foldl note notes).distinct = true
    ↔ notes.distinct = true ∧ labels.Nodup ∧ ∀ label ∈ labels, label ∉ notes.seen := by
  induction labels generalizing notes with
  | nil => simp
  | cons label rest ih =>
    rw [List.foldl_cons, ih, List.nodup_cons, List.forall_mem_cons]
    simp only [note, Bool.and_eq_true, Bool.not_eq_true', List.contains_eq_mem,
      decide_eq_false_iff_not, List.mem_insert_iff, not_or]
    constructor
    · rintro ⟨⟨flag, new⟩, rest_, others⟩
      exact ⟨flag, ⟨fun again => (others label again).1 rfl, rest_⟩, new,
        fun other member => (others other member).2⟩
    · rintro ⟨flag, ⟨fresh, rest_⟩, new, others⟩
      exact ⟨⟨flag, new⟩, rest_, fun other member =>
        ⟨fun same => fresh (same ▸ member), others other member⟩⟩

theorem ascending_foldl_note : (labels.foldl note notes).ascending
    = (notes.ascending && Machine.ascending (notes.last.toList ++ labels)) := by
  induction labels generalizing notes with
  | nil => cases last : notes.last <;> simp [Machine.ascending]
  | cons label rest ih =>
    rw [List.foldl_cons, ih]
    cases last : notes.last <;> simp [note, last, Machine.ascending, Bool.and_assoc]

theorem emptySeen_foldl_note : (labels.foldl note notes).emptySeen
    = (notes.emptySeen || labels.any (· == epsilon)) := by
  induction labels generalizing notes with
  | nil => simp
  | cons label rest ih => rw [List.foldl_cons, ih, note, List.any_cons, Bool.or_assoc]

end LabelNotes

theorem Machine.distinct_iff_nodup {labels : List Label} :
    distinct labels = true ↔ labels.Nodup := by
  induction labels with
  | nil => simp [distinct]
  | cons label rest ih => simp [distinct, ih]

/-- What a pass over the arcs keeps. -/
structure Scan where
  input : LabelNotes
  output : LabelNotes
  acceptor : Bool
  epsilons : Bool
  weighted : Bool
  topSorted : Bool
  string : Bool
  numFinals : Nat
  /-- The targets of the arcs of each state. -/
  successors : List (List StateId)

namespace Scan

/-- The notes on one side. -/
def notes (scan : Scan) (side : Bool) : LabelNotes := if side then scan.output else scan.input

def start (v : View) : Scan where
  input := LabelNotes.start
  output := LabelNotes.start
  acceptor := true
  epsilons := false
  weighted := false
  topSorted := true
  string := v.start == noState || v.start == 0
  numFinals := 0
  successors := []

def enter (scan : Scan) : Scan :=
  { scan with input := scan.input.enter, output := scan.output.enter }

/-- Passes one arc of a state. -/
def passArc (s : StateId) (scan : Scan) (a : Arc) : Scan :=
  { scan with
    input := scan.input.note a.ilabel
    output := scan.output.note a.olabel
    acceptor := scan.acceptor && a.ilabel == a.olabel
    epsilons := scan.epsilons || (a.ilabel == epsilon && a.olabel == epsilon)
    weighted := scan.weighted || Machine.costs a.weight
    topSorted := scan.topSorted && s < a.nextstate
    string := scan.string && a.nextstate == s + 1 }

/-- Leaves a state whose arcs are passed. -/
def leave (scan : Scan) (final : Weight) (arcs : List Arc) : Scan :=
  let noted := { scan with successors := scan.successors ++ [arcs.map Arc.nextstate] }
  if final.isZero then { noted with string := noted.string && arcs.length == 1 }
  else { noted with
    numFinals := noted.numFinals + 1
    weighted := noted.weighted || !final.isOne }

/-- Passes one state. -/
def passState (v : View) (scan : Scan) (s : StateId) : Scan :=
  ((v.arcs s).foldl (passArc s) scan.enter).leave (v.final s) (v.arcs s)

/-- Passes all states. -/
def run (v : View) : Scan := v.states.foldl (passState v) (start v)

/-- The graph of the targets that were noted. -/
def graph (scan : Scan) : Graph := ⟨scan.successors.map fun next => next.filterMap position?⟩

/-- The verdict at the end of a pass: flags for the traits of arcs, questions about the graph for
those of paths. -/
def holds (scan : Scan) (v : View) : Trait → Bool
  | .acceptor => scan.acceptor
  | .inputDeterministic => scan.input.distinct
  | .outputDeterministic => scan.output.distinct
  | .epsilons => scan.epsilons
  | .inputEpsilons => scan.input.emptySeen
  | .outputEpsilons => scan.output.emptySeen
  | .inputSorted => scan.input.ascending
  | .outputSorted => scan.output.ascending
  | .weighted => scan.weighted
  | .cyclic => scan.graph.hasCycle
  | .initialCyclic =>
    match position? v.start with
    | some start => scan.graph.returnsTo start
    | none => false
  | .topSorted => scan.topSorted
  | .accessible =>
    v.numStates == 0 || match position? v.start with
      | some start => scan.graph.reachesAll [start]
      | none => false
  | .coaccessible => scan.graph.reversed.reachesAll v.machine.finals
  | .string => scan.string && scan.numFinals ≤ 1

/-! ## One state -/

/-- Passing arcs, flag by flag. -/
theorem foldl_passArc (s : StateId) (arcs : List Arc) (scan : Scan) :
    arcs.foldl (passArc s) scan =
      { scan with
        input := (arcs.map Arc.ilabel).foldl LabelNotes.note scan.input
        output := (arcs.map Arc.olabel).foldl LabelNotes.note scan.output
        acceptor := scan.acceptor && arcs.all fun a => a.ilabel == a.olabel
        epsilons := scan.epsilons || arcs.any fun a => a.ilabel == epsilon && a.olabel == epsilon
        weighted := scan.weighted || arcs.any fun a => Machine.costs a.weight
        topSorted := scan.topSorted && arcs.all fun a => s < a.nextstate
        string := scan.string && arcs.all fun a => a.nextstate == s + 1 } := by
  induction arcs generalizing scan with
  | nil => simp
  | cons a rest ih =>
    rw [List.foldl_cons, ih]
    simp only [passArc, List.map_cons, List.foldl_cons, List.all_cons, List.any_cons,
      Bool.and_assoc, Bool.or_assoc]

/-- Passing a state, flag by flag. -/
theorem passState_eq (v : View) (scan : Scan) (s : StateId) : scan.passState v s =
    { input := (v.labels false s).foldl LabelNotes.note scan.input.enter
      output := (v.labels true s).foldl LabelNotes.note scan.output.enter
      acceptor := scan.acceptor && (v.arcs s).all fun a => a.ilabel == a.olabel
      epsilons := scan.epsilons
        || (v.arcs s).any fun a => a.ilabel == epsilon && a.olabel == epsilon
      weighted := scan.weighted || (Machine.costs (v.final s)
        || (v.arcs s).any fun a => Machine.costs a.weight)
      topSorted := scan.topSorted && (v.arcs s).all fun a => s < a.nextstate
      string := scan.string && (((v.arcs s).all fun a => a.nextstate == s + 1)
        && (v.isFinal s || (v.arcs s).length == 1))
      numFinals := scan.numFinals + if v.isFinal s then 1 else 0
      successors := scan.successors ++ [(v.arcs s).map Arc.nextstate] } := by
  have costs : Machine.costs (v.final s) = (!(v.final s).isOne && v.isFinal s) := rfl
  have final : v.isFinal s = !(v.final s).isZero := rfl
  unfold passState leave
  rw [foldl_passArc]
  cases zero : (v.final s).isZero with
  | true =>
    rw [zero] at final
    simp [costs, final, enter, Bool.and_assoc]
    exact ⟨rfl, rfl⟩
  | false =>
    rw [zero] at final
    have order (x y z : Bool) : ((x || y) || z) = (x || (z || y)) := by
      rw [Bool.or_assoc, Bool.or_comm y]
    simp [costs, final, enter, order]
    exact ⟨rfl, rfl⟩

/-- The flags of a pass tell what is true of the states that it has left behind. -/
structure Tells (scan : Scan) (v : View) (done : List StateId) : Prop where
  distinct : ∀ side, (scan.notes side).distinct
    = done.all fun s => Machine.distinct (v.labels side s)
  ascending : ∀ side, (scan.notes side).ascending
    = done.all fun s => Machine.ascending (v.labels side s)
  emptySeen : ∀ side, (scan.notes side).emptySeen
    = done.any fun s => (v.arcs s).any fun a => a.label side == epsilon
  acceptor : scan.acceptor = done.all fun s => (v.arcs s).all fun a => a.ilabel == a.olabel
  epsilons : scan.epsilons
    = done.any fun s => (v.arcs s).any fun a => a.ilabel == epsilon && a.olabel == epsilon
  weighted : scan.weighted = done.any fun s =>
    Machine.costs (v.final s) || (v.arcs s).any fun a => Machine.costs a.weight
  topSorted : scan.topSorted = done.all fun s => (v.arcs s).all fun a => s < a.nextstate
  string : scan.string = ((v.start == noState || v.start == 0) && done.all fun s =>
    ((v.arcs s).all fun a => a.nextstate == s + 1) && (v.isFinal s || (v.arcs s).length == 1))
  numFinals : scan.numFinals = done.countP v.isFinal
  successors : scan.successors = done.map fun s => (v.arcs s).map Arc.nextstate

variable {v : View} {scan : Scan} {done : List StateId}

theorem notes_passState (side : Bool) (s : StateId) : (scan.passState v s).notes side
    = (v.labels side s).foldl LabelNotes.note (scan.notes side).enter := by
  rw [passState_eq]
  cases side <;> rfl

theorem tells_start (v : View) : (start v).Tells v [] where
  distinct side := by cases side <;> rfl
  ascending side := by cases side <;> rfl
  emptySeen side := by cases side <;> rfl
  acceptor := rfl
  epsilons := rfl
  weighted := rfl
  topSorted := rfl
  string := by simp [start]
  numFinals := rfl
  successors := rfl

/-- Having left one more state behind, the flags tell of it too. Of the states before it the notes
have kept the flags only, so its labels are compared with each other and with no others. -/
theorem Tells.pass (told : scan.Tells v done) (s : StateId) :
    (scan.passState v s).Tells v (done ++ [s]) where
  distinct side := by
    rw [notes_passState, Bool.eq_iff_iff, LabelNotes.distinct_foldl_note]
    simp [LabelNotes.enter, told.distinct, Machine.distinct_iff_nodup]
  ascending side := by
    rw [notes_passState, LabelNotes.ascending_foldl_note]
    simp [LabelNotes.enter, told.ascending]
  emptySeen side := by
    rw [notes_passState, LabelNotes.emptySeen_foldl_note]
    simp [LabelNotes.enter, told.emptySeen, View.labels, Function.comp_def]
  acceptor := by simp [passState_eq, told.acceptor]
  epsilons := by simp [passState_eq, told.epsilons]
  weighted := by simp [passState_eq, told.weighted]
  topSorted := by simp [passState_eq, told.topSorted]
  string := by simp [passState_eq, told.string, Bool.and_assoc]
  numFinals := by simp [passState_eq, told.numFinals, List.countP_append]
  successors := by simp [passState_eq, told.successors]

/-! ## All states -/

theorem Tells.passAll (told : scan.Tells v done) (states : List StateId) :
    (states.foldl (passState v) scan).Tells v (done ++ states) := by
  induction states generalizing scan done with
  | nil => simpa using told
  | cons s rest ih =>
    have passed := ih (told.pass s)
    rwa [List.append_assoc] at passed

theorem tells_run (v : View) : (run v).Tells v v.states := (tells_start v).passAll v.states

theorem graph_run (v : View) : (run v).graph = v.machine.graph := by
  simp [graph, (tells_run v).successors, Machine.graph, View.machine, List.filterMap_map,
    Function.comp_def]

/-- At its end a pass has the verdicts of the survey. -/
theorem holds_run (v : View) (t : Trait) : (run v).holds v t = v.machine.holds t := by
  have told := tells_run v
  have every (p : State → Bool) :
      (v.states.all fun s => p ⟨v.final s, v.arcs s⟩) = v.machine.states.all p :=
    List.all_map.symm
  have some_ (p : State → Bool) :
      (v.states.any fun s => p ⟨v.final s, v.arcs s⟩) = v.machine.states.any p :=
    List.any_map.symm
  cases t with
  | acceptor => exact told.acceptor.trans (every fun state => state.arcs.all _)
  | inputDeterministic =>
    exact (told.distinct false).trans
      (every fun state => Machine.distinct (state.arcs.map (Arc.label false)))
  | outputDeterministic =>
    exact (told.distinct true).trans
      (every fun state => Machine.distinct (state.arcs.map (Arc.label true)))
  | epsilons => exact told.epsilons.trans (some_ fun state => state.arcs.any _)
  | inputEpsilons => exact (told.emptySeen false).trans (some_ fun state => state.arcs.any _)
  | outputEpsilons => exact (told.emptySeen true).trans (some_ fun state => state.arcs.any _)
  | inputSorted =>
    exact (told.ascending false).trans
      (every fun state => Machine.ascending (state.arcs.map (Arc.label false)))
  | outputSorted =>
    exact (told.ascending true).trans
      (every fun state => Machine.ascending (state.arcs.map (Arc.label true)))
  | weighted =>
    exact told.weighted.trans (some_ fun state =>
      Machine.costs state.final || state.arcs.any fun a => Machine.costs a.weight)
  | topSorted =>
    refine told.topSorted.trans ?_
    rw [Machine.holds, View.numbered_machine, List.all_map]
    rfl
  | string =>
    change ((run v).string && decide ((run v).numFinals ≤ 1)) = _
    rw [Bool.eq_iff_iff, View.holds_string_iff, told.string, told.numFinals]
    simp [View.numArcs, and_assoc]
  | cyclic => simp only [holds, Machine.holds, graph_run]
  | coaccessible => simp only [holds, Machine.holds, graph_run]
  | initialCyclic =>
    simp only [holds, Machine.holds, graph_run]
    rfl
  | accessible =>
    simp only [holds, Machine.holds, graph_run, View.numStates_machine]
    rfl

/-- The word of a pass is that of the survey. -/
theorem ofVerdict_run (v : View) : ofVerdict ((run v).holds v) = v.survey := by
  rw [funext (holds_run v)]
  rfl

end Scan

/-! ## What the verdicts mean -/

namespace View

variable {v : View}

/-- What is true of all labels of a state in their order, by the positions of its arcs. -/
theorem pairwise_labels_iff {r : Label → Label → Prop} {side : Bool} {s : StateId} :
    (v.labels side s).Pairwise r
      ↔ ∀ i j : Nat, (before : i < j) → (inside : j < (v.arcs s).length) →
        r ((v.arcs s)[i].label side) ((v.arcs s)[j].label side) := by
  rw [labels, List.pairwise_map, List.pairwise_iff_getElem]
  constructor
  · intro all i j before inside
    exact all i j _ inside before
  · intro all i j _ inside before
    exact all i j before inside

theorem holds_sorted_iff {side : Bool} : v.machine.holds (.sorted side) = true
    ↔ ∀ s ∈ v.states, (v.labels side s).Pairwise (· ≤ ·) := by
  have flag : v.machine.holds (.sorted side)
      = v.states.all fun s => Machine.ascending (v.labels side s) := by
    rw [← Scan.holds_run, ← (Scan.tells_run v).ascending]
    cases side <;> rfl
  simp only [flag, List.all_eq_true, Machine.ascending_iff_pairwise]

theorem holds_deterministic_iff {side : Bool} : v.machine.holds (.deterministic side) = true
    ↔ ∀ s ∈ v.states, (v.labels side s).Pairwise (· ≠ ·) := by
  have flag : v.machine.holds (.deterministic side)
      = v.states.all fun s => Machine.distinct (v.labels side s) := by
    rw [← Scan.holds_run, ← (Scan.tells_run v).distinct]
    cases side <;> rfl
  simp only [flag, List.all_eq_true, Machine.distinct_iff_nodup]
  rfl

theorem holds_emptyLabels_iff {side : Bool} : v.machine.holds (.emptyLabels side) = true
    ↔ ∃ s ∈ v.states, ∃ a ∈ v.arcs s, a.label side = epsilon := by
  have flag : v.machine.holds (.emptyLabels side)
      = v.states.any fun s => (v.arcs s).any fun a => a.label side == epsilon := by
    rw [← Scan.holds_run, ← (Scan.tells_run v).emptySeen]
    cases side <;> rfl
  simp only [flag, List.any_eq_true, beq_iff_eq]

theorem holds_acceptor_iff : v.machine.holds .acceptor = true
    ↔ ∀ s ∈ v.states, ∀ a ∈ v.arcs s, a.ilabel = a.olabel := by
  rw [← Scan.holds_run]
  change (Scan.run v).acceptor = true ↔ _
  simp only [(Scan.tells_run v).acceptor, List.all_eq_true, beq_iff_eq]

theorem holds_epsilons_iff : v.machine.holds .epsilons = true
    ↔ ∃ s ∈ v.states, ∃ a ∈ v.arcs s, a.ilabel = epsilon ∧ a.olabel = epsilon := by
  rw [← Scan.holds_run]
  change (Scan.run v).epsilons = true ↔ _
  simp only [(Scan.tells_run v).epsilons, List.any_eq_true, Bool.and_eq_true, beq_iff_eq]

theorem holds_weighted_iff : v.machine.holds .weighted = true
    ↔ (∃ s ∈ v.states, ∃ a ∈ v.arcs s, a.weight.isOne = false ∧ a.weight.isZero = false)
      ∨ ∃ s ∈ v.states, (v.final s).isZero = false ∧ (v.final s).isOne = false := by
  rw [← Scan.holds_run]
  change (Scan.run v).weighted = true ↔ _
  simp only [(Scan.tells_run v).weighted, Machine.costs, List.any_eq_true, Bool.and_eq_true,
    Bool.or_eq_true, Bool.not_eq_true']
  constructor
  · rintro ⟨s, state, final | arc⟩
    · exact Or.inr ⟨s, state, final.symm⟩
    · exact Or.inl ⟨s, state, arc⟩
  · rintro (⟨s, state, arc⟩ | ⟨s, state, final⟩)
    · exact ⟨s, state, Or.inr arc⟩
    · exact ⟨s, state, Or.inl final.symm⟩

theorem holds_topSorted_iff : v.machine.holds .topSorted = true
    ↔ ∀ s ∈ v.states, ∀ a ∈ v.arcs s, s < a.nextstate := by
  rw [← Scan.holds_run]
  change (Scan.run v).topSorted = true ↔ _
  simp only [(Scan.tells_run v).topSorted, List.all_eq_true, decide_eq_true_eq]

end View

/-- The word of a survey has one bit of every pair, and no bit besides. It decides whether the
labels of every state ascend from any position to any later one, whether none comes twice, whether
some are empty, whether the labels of every arc are equal, whether some weight is a cost of its own
and whether all arcs lead to later states. A single pass over the arcs of all states finds it. -/
theorem survey_decides_arcs (v : View) :
    ((∀ t, ∃! verdict, Says v.survey t verdict) ∧ v.survey &&& paired = v.survey)
      ∧ (∀ side, Decides v.survey (.sorted side) (∀ s ∈ v.states, ∀ i j : Nat, (before : i < j) →
        (inside : j < (v.arcs s).length) →
          (v.arcs s)[i].label side ≤ (v.arcs s)[j].label side))
      ∧ (∀ side, Decides v.survey (.deterministic side) (∀ s ∈ v.states, ∀ i j : Nat,
        (before : i < j) → (inside : j < (v.arcs s).length) →
          (v.arcs s)[i].label side ≠ (v.arcs s)[j].label side))
      ∧ (∀ side, Decides v.survey (.emptyLabels side)
        (∃ s ∈ v.states, ∃ a ∈ v.arcs s, a.label side = epsilon))
      ∧ Decides v.survey .epsilons
        (∃ s ∈ v.states, ∃ a ∈ v.arcs s, a.ilabel = epsilon ∧ a.olabel = epsilon)
      ∧ Decides v.survey .acceptor (∀ s ∈ v.states, ∀ a ∈ v.arcs s, a.ilabel = a.olabel)
      ∧ Decides v.survey .weighted
        ((∃ s ∈ v.states, ∃ a ∈ v.arcs s, a.weight.isOne = false ∧ a.weight.isZero = false)
          ∨ ∃ s ∈ v.states, (v.final s).isZero = false ∧ (v.final s).isOne = false)
      ∧ Decides v.survey .topSorted (∀ s ∈ v.states, ∀ a ∈ v.arcs s, s < a.nextstate)
      ∧ ofVerdict ((Scan.run v).holds v) = v.survey := by
  refine ⟨⟨?_, ofVerdict_and_paired _⟩, ?_, ?_, ?_, ?_, ?_, ?_, ?_, Scan.ofVerdict_run v⟩
  · intro t
    refine ⟨v.machine.holds t, View.says_survey_iff.2 rfl, ?_⟩
    intro other said
    exact (View.says_survey_iff.1 said).symm
  · intro side
    refine View.decides_survey (View.holds_sorted_iff.trans ?_)
    simp only [View.pairwise_labels_iff]
  · intro side
    refine View.decides_survey (View.holds_deterministic_iff.trans ?_)
    simp only [View.pairwise_labels_iff]
  · intro side
    exact View.decides_survey View.holds_emptyLabels_iff
  · exact View.decides_survey View.holds_epsilons_iff
  · exact View.decides_survey View.holds_acceptor_iff
  · exact View.decides_survey View.holds_weighted_iff
  · exact View.decides_survey View.holds_topSorted_iff

end Transducer
