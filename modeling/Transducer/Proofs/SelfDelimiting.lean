import Transducer.Proofs.FileRoundTrip
import Transducer.Proofs.SourceIndependence
/-!
# Files tell where they end

A file that was written is read back from its own bytes: what follows them is left alone, and when
some of them are missing the reading ends in a short read, never in a smaller machine or in another
refusal. The first is the round trip with something behind the file. The second follows from it by
setting the cut file beside the whole one: the two readings can only part where the cut file ends
(`Alike`), and they must part, because the whole file is used up in the end. Main statement:
`selfDelimiting_of_write`.
-/
namespace Transducer

open Reading

/-- Sources that have the same bytes ahead of one position. -/
theorem Source.Ahead.unique {source : Source} {lends lends' : Bool} {position position' : Nat}
    {rest rest' : List UInt8} (here : source.Ahead lends position rest)
    (there : source.Ahead lends' position' rest') : rest = rest' := by
  generalize same : source = other at there
  cases here with
  | stream content =>
    cases there with
    | stream content' =>
      cases same
      rw [← content, content']
    | mapped => cases same
  | mapped length =>
    cases there with
    | stream => cases same
    | mapped length' =>
      injection same with bytes place
      exact (List.append_inj bytes (by rw [length, length', place])).2

namespace Compact

variable {F : Format}

/-- A strict front of bytes that are read to their end is too short. -/
theorem shortRead_of_yields (payload : F.packing.readPayload.Steady) {name : String}
    {mode : ReadMode} {cut rest : List UInt8} {d : Compact F}
    (yields : (read F name mode).Yields true 0 (cut ++ rest) d) (missing : rest ≠ [])
    {lends : Bool} {source : Source} (offers : source.Offers lends 0 cut) :
    ∃ expected actual after,
      read F name mode source = (.error (.shortRead expected actual), after) := by
  have whole := Source.offers_ofMapping (cut ++ rest)
  obtain ⟨after', back, used⟩ := yields (Source.ofMapping (cut ++ rest)) [] (by
    rw [List.append_nil]
    exact whole.ahead)
  have alike := alike_read ⟨lends, true, rest⟩ payload name mode mode 0 cut source
    (Source.ofMapping (cut ++ rest)) ⟨offers, whole⟩
  rw [back] at alike
  generalize read F name mode source = outcome at alike ⊢
  cases alike with
  | cut longer expected actual after => exact ⟨expected, actual, after, rfl⟩
  | ok related sources =>
    rename_i place left after
    -- Nothing is left behind the whole file, so nothing was missing.
    have nothing : left ++ rest = [] := sources.second.ahead.unique used
    exact absurd (List.append_eq_nil_iff.1 nothing).2 missing

end Compact

/-- Files tell where they end. Read behind a file stands whatever else the source has, and every
strict front of a file is too short, for every kind of machine, all options and every way of
reading; the machine that comes back does not depend on what follows. -/
theorem selfDelimiting_of_write {F : Format} {c : Compact F} (built : c.store.Built)
    (good : c.error = none)
    (payload : (∃ k : Stock, F.packing = k.packing) ∨ F.packing.readPayload.Steady
      ∧ ∀ lends, F.packing.readPayload.Undoes lends (F.packing.payloadSegments c.payload) c.payload)
    (inside : Compact.StartsInside c.store.start c.store.numStates)
    (states_small : c.store.numStates ≤ 2147483647) (tables : Compact.TablesKept c.symbols)
    (options : WriteOptions) {sink : Sink}
    (written : c.write options Sink.unlimited = (.ok (), sink))
    (short : sink.received.length < fileLimit) (name : String) (mode : ReadMode) (lends : Bool) :
    (∃ d, c.Kept d (options.select c.symbols) (options.aligned && decide (mode = .borrow) && lends)
        ∧ ∀ extra source, source.Ahead lends 0 (sink.received ++ extra) →
          ∃ after, Compact.read F name mode source = (.ok d, after)
            ∧ after.Ahead lends sink.received.length extra)
      ∧ ∀ cut rest source, sink.received = cut ++ rest → rest ≠ [] → source.Offers lends 0 cut →
        ∃ expected actual after,
          Compact.read F name mode source = (.error (.shortRead expected actual), after) := by
  have steady : F.packing.readPayload.Steady := by
    rcases payload with ⟨k, stock⟩ | ⟨steady, _⟩
    · rw [stock]
      exact k.plain_readPayload.steady
    · exact steady
  have undoes (lends : Bool) : F.packing.readPayload.Undoes lends
      (F.packing.payloadSegments c.payload) c.payload := by
    rcases payload with stock | ⟨_, undoes⟩
    · exact Compact.undoes_payload_of_stock stock c.payload
    · exact undoes lends
  constructor
  · obtain ⟨d, yields, kept⟩ := Compact.exists_yields_of_write built.holds good inside states_small
      tables (undoes lends) written short name mode
    refine ⟨d, kept, ?_⟩
    intro extra source ahead
    obtain ⟨after, back, left⟩ := yields source extra ahead
    rw [Nat.zero_add] at left
    exact ⟨after, back, left⟩
  · intro cut rest source parts missing offers
    obtain ⟨d, yields, _⟩ := Compact.exists_yields_of_write built.holds good inside states_small
      tables (undoes true) written short name mode
    rw [parts] at yields
    exact Compact.shortRead_of_yields steady yields missing offers

/-- The file of a string, read with more bytes behind it and with its last byte missing. -/
theorem selfDelimiting_lettered : ∃ sink d,
    lettered.write ⟨true, true, true⟩ Sink.unlimited = (.ok (), sink)
      ∧ lettered.Kept d ⟨some letters, none⟩ true
      ∧ (∃ after, Compact.read plainStrings "lettered" .borrow
          (Source.ofMapping (sink.received ++ [7])) = (.ok d, after)
        ∧ after.Ahead true sink.received.length [7])
      ∧ ∃ expected actual after, Compact.read plainStrings "lettered" .borrow
          (Source.ofMapping sink.received.dropLast) = (.error (.shortRead expected actual), after) := by
  have packed : Compact.ofElements? (F := plainStrings) () letterLabels
      = .ok (Compact.ofElements (F := plainStrings) () letterLabels) := by
    rfl
  obtain ⟨store, stored, made⟩ := bind_eq_ok_iff.1 packed
  have built : lettered.store.Built := by
    cases made
    exact .gathered stored
  have good : lettered.error = none := by rfl
  obtain ⟨inside, small⟩ := lettered_inside
  obtain ⟨tables, selected⟩ := lettered_tables
  obtain ⟨short, filled⟩ := lettered_received
  have texts : (WriteOptions.select ⟨true, true, true⟩ lettered.symbols).TextsFit := by
    rw [selected]
    exact textsFit_letters
  obtain ⟨sink, written⟩ := Compact.exists_write_eq_ok good
    (Stock.string.textFits_typeName .tropical .four) texts (List.forall_mem_nil _)
  rw [written] at short filled
  obtain ⟨⟨d, kept, back⟩, cut⟩ := selfDelimiting_of_write built good (Or.inl ⟨.string, rfl⟩) inside
    small tables ⟨true, true, true⟩ written short "lettered" .borrow true
  rw [selected] at kept
  refine ⟨sink, d, written, kept, back [7] _ (Source.ahead_ofMapping _), ?_⟩
  exact cut _ [sink.received.getLast filled] _ (List.dropLast_append_getLast filled).symm
    (List.cons_ne_nil _ _) (Source.offers_ofMapping _)

end Transducer
