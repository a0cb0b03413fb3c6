import Mathlib
import Transducer.Proofs.DecodedCounts
import Transducer.Proofs.DirectWriting
import Transducer.Proofs.ReadSafety
/-!
# The start that is stored

A machine that can be changed may be given any number for its start, and packing stores that number
as it is. Only a packing of strings looks at it, on account of the trait that it demands, and a
string without states may still start at 0 (`startsInside_iff_of_string`); the other packings take
a machine with every start once they take it with one (`exists_ofView?_setStart`). A reader insists
on a start among the states. Main statement: a file that is written opens exactly if the machine
started at one of its states, or at none (`opens_iff_startsInside`).
-/
namespace Transducer

open TraitWord Reading

/-! ## What a machine says of its traits -/

namespace Machine

theorem says_properties (m : Machine) (t : Trait) (verdict : Bool) :
    Says m.properties t verdict ↔ m.holds t = verdict := by
  unfold properties survey
  rw [says_or, says_or, says_ofVerdict, or_iff_left (not_says_expanded t verdict),
    or_iff_left (not_says_mutable t verdict)]

/-- A machine that can be changed declares the verdicts of its survey, so it is not surveyed
again. -/
theorem test_view (m : Machine) {mask : UInt64} (traits : mask &&& paired = mask) :
    m.view.test mask = m.properties &&& mask := by
  have decided : known m.properties &&& mask = mask := and_eq_of_says traits
    fun t verdict _ => says_known ((m.says_properties t _).2 rfl) verdict
  exact if_pos (beq_iff_eq.2 decided)

theorem isFailed_view (m : Machine) : m.view.isFailed = false := by
  have clear : m.properties &&& failed = 0 := by
    rw [and_failed_eq_zero_iff]
    unfold properties survey
    rw [UInt64.toNat_or, UInt64.toNat_or, Nat.testBit_or, Nat.testBit_or,
      testBit_ofVerdict _ (by decide)]
    decide
  unfold View.isFailed
  rw [show m.view.properties = m.properties from rfl, clear]
  rfl

end Machine

namespace Compact

variable {k : Stock} {algebra : Algebra} {width : OffsetWidth} {payload : k.packing.Payload}
  {m : Machine}

/-- A machine that can be changed is packed when it has the traits that the packing demands. -/
theorem checkSource_view_iff : checkSource k.packing m.view = .ok ()
    ↔ ∀ t verdict, Says k.packing.required t verdict → m.holds t = verdict := by
  rw [checkSource_eq_ok_iff, m.test_view k.required_and_paired, and_iff_right m.isFailed_view]
  constructor
  · intro demanded t verdict said
    rw [← demanded] at said
    exact (m.says_properties t verdict).1 (says_and.1 said).1
  · intro has
    exact and_eq_of_says k.required_and_paired fun t verdict said =>
      (m.says_properties t verdict).2 (has t verdict said)

/-! ## Starts of machines that are packed -/

/-- Packings that keep the next states demand traits to which the start does not matter. -/
theorem checkSource_setStart (kept : k.keepsTarget = true)
    (checked : checkSource k.packing m.view = .ok ()) (s : StateId) :
    checkSource k.packing (m.setStart s).view = .ok () := by
  rw [checkSource_view_iff] at checked ⊢
  intro t verdict said
  have found := checked t verdict said
  rcases Stock.says_required said with ⟨_, rfl, _⟩ | ⟨_, rfl, _⟩ | ⟨dropped, _⟩
  · exact found
  · exact found
  · rw [kept] at dropped
    cases dropped

theorem exists_ofView?_setStart {c : Compact (k.format algebra width)}
    (kept : k.keepsTarget = true) (made : ofView? payload m.view = .ok c) (s : StateId) :
    ∃ d : Compact (k.format algebra width), ofView? payload (m.setStart s).view = .ok d := by
  have fits : m.view.Fits k.packing width := fits_of_ofView? made
  have counts : (m.setStart s).view.entryCounts = m.view.entryCounts := rfl
  have checked : checkSource k.packing m.view = .ok () := (ofView?_eq_ok_iff.1 made).1
  refine ofView?_of_fits (F := k.format algebra width) payload
    (checkSource_setStart kept checked s) ?_
  unfold View.Fits at fits ⊢
  rw [counts]
  exact fits

/-- A string starts at its first state, or nowhere. -/
theorem start_of_string (dropped : k.keepsTarget = false)
    (checked : checkSource k.packing m.view = .ok ()) : m.start = noState ∨ m.start = 0 := by
  have shape : m.isString = true :=
    checkSource_view_iff.1 checked .string true (Stock.says_required_string dropped)
  unfold Machine.isString at shape
  rw [Bool.and_eq_true, Bool.and_eq_true, Bool.or_eq_true, beq_iff_eq, beq_iff_eq] at shape
  exact shape.1.1

/-- Only a string without states can start outside of them. -/
theorem startsInside_iff_of_string (dropped : k.keepsTarget = false)
    (checked : checkSource k.packing m.view = .ok ()) :
    StartsInside m.start m.numStates ↔ ¬ (m.numStates = 0 ∧ m.start = 0) := by
  have zero : (0 : StateId).toInt = 0 := rfl
  rcases start_of_string dropped checked with nowhere | first
  · rw [nowhere]
    exact iff_of_true (Or.inl rfl) fun both => absurd both.2 (by decide)
  · rw [first]
    constructor
    · rintro (impossible | ⟨_, below⟩) ⟨none_, _⟩
      · exact absurd impossible (by decide)
      · omega
    · intro some_
      refine Or.inr ⟨Int.le_of_eq zero.symm, ?_⟩
      have positive : m.numStates ≠ 0 := fun none_ => some_ ⟨none_, rfl⟩
      omega

/-! ## Files -/

section Files

variable {F : Format} {start : StateId} {numStates numArcs : Nat} {lends : Bool}

/-- The check of a header that announces a start and some states is that of the start. -/
theorem startOk_iff {h : Header} (states_small : numStates ≤ 2147483647)
    (start_eq : h.start = start.toInt64) (states_eq : h.numStates = Int64.ofNat numStates) :
    (decide (h.numStates ≤ 2147483647) && (h.start == noState.toInt64
      || (decide (0 ≤ h.start) && decide (h.start < h.numStates)))) = true
        ↔ StartsInside start numStates := by
  constructor
  · intro accepted
    have limit : 2147483647 < fileLimit := by decide
    have inside := (startsInside_of_startOk accepted).1
    rwa [start_eq, states_eq, Int32.toInt32_toInt64,
      Int64.toInt_ofNat_of_lt (Nat.lt_of_le_of_lt states_small limit), Int.toNat_natCast] at inside
  · intro inside
    exact startOk_of_startsInside inside states_small start_eq states_eq

/-- A header that is written with a start outside of the states is refused. -/
theorem refuses_readHeader (options : WriteOptions) (properties : UInt64) (symbols : SymbolPair)
    (name : String) (outside : ¬ StartsInside start numStates)
    (states_small : numStates ≤ 2147483647) (arcs_small : numArcs < fileLimit) :
    (readHeader F name).Refuses lends
      (options.header F properties start numStates numArcs symbols).segments
      (.badHeader (.start name start.toInt64 (Int64.ofNat numStates))) := by
  have fitting := fitting_header (F := F) options properties start symbols states_small arcs_small
  have start_eq : (options.header F properties start numStates numArcs symbols).start
      = start.toInt64 := rfl
  have states_eq : (options.header F properties start numStates numArcs symbols).numStates
      = Int64.ofNat numStates := rfl
  generalize options.header F properties start numStates numArcs symbols = h at *
  have refused := Bool.eq_false_iff.2 fun accepted =>
    outside ((startOk_iff states_small start_eq states_eq).1 accepted)
  have both : (readHeader F name).Refuses lends (h.segments ++ [])
      (.badHeader (.start name h.start h.numStates)) := by
    refine (h.undoes_read name fitting.counts).bind_refuses (Refuses.require fitting.version ?_)
    rw [if_neg fitting.aligned]
    exact Refuses.require fitting.typeName (Refuses.require fitting.arcName
      (refuses_require refused _ _ _))
  rwa [List.append_nil, start_eq, states_eq] at both

/-- What becomes of the header of a file that was written. -/
theorem opens_of_write {c : Compact F} (stored : c.HoldsRows) (good : c.error = none)
    (states_small : c.store.numStates ≤ 2147483647) {options : WriteOptions} {sink : Sink}
    (written : c.write options Sink.unlimited = (.ok (), sink))
    (short : sink.received.length < fileLimit) (name : String) {source : Source}
    (ahead : source.Ahead lends 0 sink.received) :
    (StartsInside c.store.start c.store.numStates →
        ∃ header after, readHeader F name source = (.ok header, after))
      ∧ (¬ StartsInside c.store.start c.store.numStates → ∀ mode, ∃ after,
        read F name mode source = (.error (.badHeader (.start name c.store.start.toInt64
          (Int64.ofNat c.store.numStates))), after)) := by
  obtain ⟨segments, bytes, form, emitted, rfl⟩ := emit_eq_ok_iff.1 written
  rw [segments?_eq_ok good] at form
  cases form
  change bytes.length < fileLimit at short
  change source.Ahead lends 0 bytes at ahead
  have arcs_small := numArcs_lt_of_emits stored emitted short
  rw [List.append_assoc, List.append_assoc] at emitted
  constructor
  · intro inside
    obtain ⟨front, more, rfl, header, _⟩ := emitted.split
    rw [List.length_append] at short
    obtain ⟨after, opened, _⟩ := undoes_readHeader options c.properties _ name inside states_small
      arcs_small 0 front header (by omega) source more ahead
    exact ⟨_, after, opened⟩
  · intro outside mode
    have refused : (read F name mode).Refuses lends _ _ := (refuses_readHeader options c.properties
      (options.select c.symbols) name outside states_small arcs_small).bind _
    refine refused.append _ 0 bytes emitted (by omega) source [] ?_
    rw [List.append_nil]
    exact ahead

end Files

/-- The file of a machine was written, from the packed machine or directly. -/
def IsFileOf (F : Format) (payload : F.packing.Payload) (m : Machine) (options : WriteOptions)
    (sink : Sink) : Prop :=
  (∃ c : Compact F, ofView? payload m.view = .ok c
      ∧ c.write options Sink.unlimited = (.ok (), sink))
    ∨ writeDirect payload (.other m.view) options Sink.unlimited = (.ok (), sink)

/-- Either way the machine was packed, and the file is the same. -/
theorem IsFileOf.exists_ofView? {options : WriteOptions} {sink : Sink}
    (written : IsFileOf (k.format algebra width) payload m options sink) :
    ∃ c : Compact (k.format algebra width), ofView? payload m.view = .ok c
      ∧ c.write options Sink.unlimited = (.ok (), sink) := by
  rcases written with packed | direct
  · exact packed
  · have same := sameOutcome_other k algebra width payload m.view options
    cases made : ofView? (F := k.format algebra width) payload m.view with
    | ok c =>
      rw [made] at same
      exact ⟨c, rfl, Eq.trans (Eq.symm same) direct⟩
    | error cause =>
      rw [made] at same
      obtain ⟨other, failed, _⟩ := same
      rw [failed] at direct
      cases direct

end Compact

/-- Packing stores the start of a machine as it is. A packing that keeps the next states takes the
machine with any other start, too; a string is inside of its states unless it has none and starts
at 0. The file of the machine, whether written from the packed one or directly, has a header that is
accepted if the machine starts at one of its states or nowhere, and is refused on account of its
start otherwise. -/
theorem opens_iff_startsInside (k : Stock) (algebra : Algebra) (width : OffsetWidth)
    (payload : k.packing.Payload) (m : Machine) :
    (∀ c : Compact (k.format algebra width), Compact.ofView? payload m.view = .ok c →
      c.view.start = m.start ∧ c.view.numStates = m.numStates
        ∧ (k.keepsTarget = true → ∀ s, ∃ d : Compact (k.format algebra width),
          Compact.ofView? payload (m.setStart s).view = .ok d)
        ∧ (k.keepsTarget = false → (Compact.StartsInside m.start m.numStates
          ↔ ¬ (m.numStates = 0 ∧ m.start = 0))))
      ∧ ∀ options sink, Compact.IsFileOf (k.format algebra width) payload m options sink →
        m.numStates ≤ 2147483647 → sink.received.length < fileLimit →
        ∀ name lends source, source.Ahead lends 0 sink.received →
          (Compact.StartsInside m.start m.numStates → ∃ header after,
            Compact.readHeader (k.format algebra width) name source = (.ok header, after))
          ∧ (¬ Compact.StartsInside m.start m.numStates → ∀ mode, ∃ after,
            Compact.read (k.format algebra width) name mode source
              = (.error (.badHeader (.start name m.start.toInt64 (Int64.ofNat m.numStates))),
                after)) := by
  constructor
  · intro c made
    obtain ⟨_, _, _, _, start, numStates, _⟩ := Compact.frame_of_ofView made
    have checked : Compact.checkSource k.packing m.view = .ok () :=
      (Compact.ofView?_eq_ok_iff.1 made).1
    exact ⟨start, numStates, fun kept => Compact.exists_ofView?_setStart kept made,
      fun dropped => Compact.startsInside_iff_of_string dropped checked⟩
  · intro options sink written states_small short name lends source ahead
    obtain ⟨c, made, written⟩ := written.exists_ofView?
    obtain ⟨_, _, _, good, start, numStates, _⟩ := Compact.frame_of_ofView made
    have obtained : c.Obtained := .packed made
    change c.store.start = m.start at start
    change c.store.numStates = m.numStates at numStates
    have opens := Compact.opens_of_write obtained.holds good (by rw [numStates]; exact states_small)
      written short name ahead
    rwa [start, numStates] at opens

/-- The machine of one state that leads nowhere, at which it starts. -/
def lone : Machine := Machine.empty.addState.2.setStart 0

/-- The same machine, started at a number that names no state. -/
def strayed : Machine := lone.setStart 5

/-- Acceptors with weights of the tropical semiring. -/
abbrev acceptors : Format := Stock.acceptor.format .tropical .four

theorem opens_iff_startsInside_lone :
    (∃ d : Compact acceptors, Compact.ofView? () strayed.view = .ok d)
      ∧ ∃ sink header after, Compact.writeDirect (F := acceptors) () (.other lone.view)
          .standard Sink.unlimited = (.ok (), sink)
        ∧ Compact.readHeader acceptors "lone" (.ofBytes sink.received) = (.ok header, after) := by
  have packed : Compact.ofView? () lone.view
      = .ok (Compact.ofView (F := acceptors) () lone.view) := by
    cbv
  have done : (Compact.writeDirect (F := acceptors) () (.other lone.view) .standard
      Sink.unlimited).1 = .ok () := by
    cbv
  have size : (Compact.writeDirect (F := acceptors) () (.other lone.view) .standard
      Sink.unlimited).2.received.length = 84 := by
    cbv
  obtain ⟨starts, opens⟩ := opens_iff_startsInside .acceptor .tropical .four () lone
  obtain ⟨_, _, anywhere, _⟩ := starts _ packed
  generalize written : Compact.writeDirect (F := acceptors) () (.other lone.view) .standard
    Sink.unlimited = result at done size
  obtain ⟨outcome, sink⟩ := result
  cases done
  have short : sink.received.length < fileLimit := by
    rw [size]
    decide
  obtain ⟨accepted, _⟩ := opens .standard sink (.inr written) (by decide) short "lone" false _
    (Source.ahead_ofBytes sink.received)
  obtain ⟨header, after, read⟩ := accepted (by decide)
  exact ⟨anywhere rfl 5, sink, header, after, rfl, read⟩

/-- The machine that was started elsewhere is packed and written all the same, and its file is
refused. -/
theorem not_opens_strayed :
    ¬ Compact.StartsInside strayed.start strayed.numStates
      ∧ Compact.ofView? () strayed.view = .ok (Compact.ofView (F := acceptors) () strayed.view)
      ∧ ¬ Compact.StartsInside (Compact.ofView (F := acceptors) () strayed.view).view.start
        (Compact.ofView (F := acceptors) () strayed.view).view.numStates
      ∧ (Compact.writeDirect (F := acceptors) () (.other strayed.view) .standard
        Sink.unlimited).1 = .ok ()
      ∧ (Compact.read acceptors "strayed" .copy (.ofBytes (Compact.writeDirect (F := acceptors) ()
          (.other strayed.view) .standard Sink.unlimited).2.received)).1.map (fun _ => ())
        = .error (.badHeader (.start "strayed" 5 1)) := by
  have start : (Compact.ofView (F := acceptors) () strayed.view).view.start = 5 := by
    cbv
  have numStates : (Compact.ofView (F := acceptors) () strayed.view).view.numStates = 1 := by
    cbv
  refine ⟨by decide, by cbv, ?_, by cbv, by cbv⟩
  rw [start, numStates]
  decide

end Transducer
