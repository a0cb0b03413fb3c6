import Transducer.Proofs.CheckedExpansion
import Transducer.Proofs.CheckedReading
import Transducer.Proofs.FileRoundTrip
/-!
# Files that nobody vouches for

Every count, offset and label of a file may be wrong. The checks on the way of reading it are few:
counts that are not negative, a start among the states, states that can be numbered, offsets that
begin at zero and never fall, arrays that the bytes fill. Here they are shown to be enough: they
leave certain of a machine (`Compact.Vouched`) what makes it sturdy (`Compact.Sturdy`) and lets it
answer every question without a trap (`Compact.Answers`). Main statement: reading any bytes from any
sound source meets no trap unless they put a symbol under the largest key, and gives an error that
the bytes account for or a machine that is sturdy and goes on answering, whatever states of it are
expanded in between (`read_safe`).
-/
namespace Transducer

open Reading Checked

/-! ## Room for what is read -/

namespace Reading

variable {α : Type} {source after : Source}

theorem le_left_of_take {n : Nat} {bytes : List UInt8}
    (taken : take n source = (.ok bytes, after)) : n ≤ source.left := by
  cases source with
  | stream reader position =>
    have got : (Delivery.fill n reader.pending).1.length
        = min n (Delivery.content reader.pending).length := by
      rw [Delivery.fill_fst, List.length_take]
    unfold take at taken
    simp only at taken
    split at taken
    · change n ≤ (Delivery.content reader.pending).length
      omega
    · split at taken <;> cases taken
  | mapped bytes position =>
    unfold take at taken
    simp only at taken
    split at taken
    · assumption
    · cases taken

/-- An array that is read was there. -/
theorem mul_size_le_left_of_region {L : Layout α} {length : Nat} {mode : ReadMode}
    {found : Region α} (read : region L length mode source = (.ok found, after)) :
    length * L.size ≤ source.left := by
  rcases copy_or_borrow_of_region read with copied | ⟨bytes, position, rfl, lent⟩
  · unfold copy at copied
    obtain ⟨size, middle, counted, copied⟩ := exists_of_bind_eq_ok copied
    obtain ⟨bytes, _, taken, _⟩ := exists_of_bind_eq_ok copied
    obtain ⟨there, rfl⟩ := outcome_of_lift counted
    rw [← eq_of_byteLength there]
    exact le_left_of_take taken
  · exact (eq_of_borrow lent).1

end Reading

/-- The elements of a store that is read were there. -/
theorem Store.mul_size_le_left_of_read {P : Packing} {w : OffsetWidth} {header : Header}
    {mode : ReadMode} {source after : Source} {store : Store P w} (sound : source.Sound)
    (read : Store.read P w header mode source = (.ok store, after)) :
    store.numElements * P.layout.size ≤ source.left := by
  unfold Store.read at read
  obtain ⟨_, first, states, read⟩ := exists_of_bind_eq_ok read
  obtain ⟨_, second, arcs, read⟩ := exists_of_bind_eq_ok read
  have same : second = source := (condition_of_require arcs).2.trans (condition_of_require states).2
  obtain ⟨⟨way, number⟩, middle, ways, read⟩ := exists_of_bind_eq_ok read
  obtain ⟨elements, _, array, read⟩ := exists_of_bind_eq_ok read
  cases read
  rw [same] at ways
  have follows := (CheckedReading.mirrors_addressing P w header.isAligned
    header.numStates.toInt.toNat mode).follows _ sound
  rw [ways] at follows
  change elements.values.length * P.layout.size ≤ _
  rw [length_of_region array]
  exact Nat.le_trans (mul_size_le_left_of_region array) follows.left_le

theorem Store.counts_of_read {P : Packing} {w : OffsetWidth} {header : Header} {mode : ReadMode}
    {source after : Source} {store : Store P w}
    (read : Store.read P w header mode source = (.ok store, after)) :
    store.start = header.start.toInt32 ∧ store.numStates = header.numStates.toInt.toNat := by
  unfold Store.read at read
  obtain ⟨_, _, _, read⟩ := exists_of_bind_eq_ok read
  obtain ⟨_, _, _, read⟩ := exists_of_bind_eq_ok read
  obtain ⟨_, _, _, read⟩ := exists_of_bind_eq_ok read
  obtain ⟨_, _, _, read⟩ := exists_of_bind_eq_ok read
  cases read
  exact ⟨rfl, rfl⟩

/-! ## Sturdy stores -/

namespace Store

variable {P : Packing} {w : OffsetWidth}

/-- A store that can be relied on: it starts at one of its states, its states can be numbered, and
its addressing fits its packing, its states and its elements. -/
structure Sturdy (store : Store P w) : Prop where
  inside : Compact.StartsInside store.start store.numStates
  numbered : store.numStates ≤ 2147483647
  arity : store.addressing.arity = P.arity
  grouped : ∀ k, store.addressing = .grouped k → store.numElements = k * store.numStates
  indexed : ∀ offsets, store.addressing = .indexed offsets →
    Delimits (offsets.values.map (·.val)) store.numStates store.numElements

theorem Holds.sturdy {store : Store P w} {rows : List (List P.Element)} (holds : store.Holds rows)
    (inside : Compact.StartsInside store.start store.numStates)
    (numbered : store.numStates ≤ 2147483647) : store.Sturdy :=
  ⟨inside, numbered, holds.arity, fun _ => holds.numElements_of_grouped,
    fun _ => holds.delimits_of_indexed⟩

end Store

namespace Compact

variable {F : Format}

/-- A machine on a sturdy store, whose elements are those of its states in order. -/
structure Sturdy (c : Compact F) : Prop where
  store : c.store.Sturdy
  whole : (c.view.states.map c.window).flatten = c.store.elements.values

theorem toInt_toInt32_of_lt {n : Int64} (nonneg : 0 ≤ n.toInt) (small : n.toInt < 2147483648) :
    n.toInt32.toInt = n.toInt := by
  rw [Int64.toInt_toInt32, Int.bmod_def]
  omega

/-- A header whose start passes its check numbers the states and starts at one of them. -/
theorem startsInside_of_startOk {h : Header} (accepted : (decide (h.numStates ≤ 2147483647)
      && (h.start == noState.toInt64
        || (decide (0 ≤ h.start) && decide (h.start < h.numStates)))) = true) :
    StartsInside h.start.toInt32 h.numStates.toInt.toNat
      ∧ h.numStates.toInt.toNat ≤ 2147483647 := by
  rw [Bool.and_eq_true, Bool.or_eq_true, Bool.and_eq_true, decide_eq_true_eq, decide_eq_true_eq,
    decide_eq_true_eq, beq_iff_eq, Int64.le_iff_toInt_le, Int64.le_iff_toInt_le,
    Int64.lt_iff_toInt_lt] at accepted
  obtain ⟨small, start⟩ := accepted
  change h.numStates.toInt ≤ 2147483647 at small
  refine ⟨?_, by omega⟩
  rcases start with nowhere | ⟨nonneg, below⟩
  · rw [nowhere]
    exact Or.inl (Int32.toInt32_toInt64 noState)
  · change 0 ≤ h.start.toInt at nonneg
    have value := toInt_toInt32_of_lt nonneg (by omega)
    exact Or.inr (by omega)

theorem startsInside_of_readHeader {name : String} {source after : Source} {header : Header}
    (read : readHeader F name source = (.ok header, after)) :
    StartsInside header.start.toInt32 header.numStates.toInt.toNat
      ∧ header.numStates.toInt.toNat ≤ 2147483647 := by
  unfold readHeader at read
  obtain ⟨_, _, _, read⟩ := exists_of_bind_eq_ok read
  obtain ⟨_, _, _, read⟩ := exists_of_bind_eq_ok read
  obtain ⟨_, _, _, read⟩ := exists_of_bind_eq_ok read
  obtain ⟨_, _, _, read⟩ := exists_of_bind_eq_ok read
  obtain ⟨_, _, checked, read⟩ := exists_of_bind_eq_ok read
  cases read
  exact startsInside_of_startOk (condition_of_require checked).1

/-- What the checks of a reading leave certain of a machine from a source of so many bytes. -/
structure Vouched (c : Compact F) (left : Nat) : Prop where
  inside : StartsInside c.store.start c.store.numStates
  numbered : c.store.numStates ≤ 2147483647
  filled : c.store.numElements * F.packing.layout.size ≤ left
  fresh : c.cache = ArcCache.empty CacheOptions.standard
  rows : ∃ rows, c.store.Holds rows

theorem vouched_of_read {name : String} {mode : ReadMode} {source after : Source} {c : Compact F}
    (payload : F.packing.readPayload.Plain) (sound : source.Sound)
    (read : Compact.read F name mode source = (.ok c, after)) : c.Vouched source.left := by
  unfold Compact.read at read
  obtain ⟨header, first, found, read⟩ := exists_of_bind_eq_ok read
  obtain ⟨symbols, second, tables, read⟩ := exists_of_bind_eq_ok read
  obtain ⟨_, third, extra, read⟩ := exists_of_bind_eq_ok read
  obtain ⟨store, _, stored, read⟩ := exists_of_bind_eq_ok read
  cases read
  have follows : source.Follows third := by
    have one := ((plain_readHeader F name).orderly source sound).follows
    rw [found] at one
    have two := ((SymbolPair.plain_read header).orderly first one.sound).follows
    rw [tables] at two
    have three := (payload.orderly second two.sound).follows
    rw [extra] at three
    exact one.trans (two.trans three)
  obtain ⟨inside, numbered⟩ := startsInside_of_readHeader found
  obtain ⟨rows, holds, _⟩ := Store.holds_of_read stored
  obtain ⟨start, numStates⟩ : store.start = header.start.toInt32
      ∧ store.numStates = header.numStates.toInt.toNat := Store.counts_of_read stored
  rw [← start, ← numStates] at inside
  rw [← numStates] at numbered
  have room := Store.mul_size_le_left_of_read follows.sound stored
  exact ⟨inside, numbered, Nat.le_trans room follows.left_le, rfl, rows, holds⟩

theorem Vouched.sturdy {c : Compact F} {left : Nat} (vouched : c.Vouched left) : c.Sturdy := by
  obtain ⟨rows, holds⟩ := vouched.rows
  have numbered := vouched.numbered
  refine ⟨holds.sturdy vouched.inside numbered, ?_⟩
  rw [map_window_states holds (by omega), holds.elements]

/-! ## Questions -/

section

variable {k : Stock} {algebra : Algebra} {width : OffsetWidth}

/-- Every question about a machine of a stock packing, put with every step checked, comes to what
it comes to without the checks, for states in range and out of range. Expanding makes room for the
arcs of a state, which must not be more than an array holds. -/
structure Answers (k : Stock) (c : Compact (k.format algebra width)) : Prop where
  window : ∀ s, c.store.checkedWindow s = .ok (c.window s)
  final : ∀ s, checkedFinal (k.restore c.payload) c s = .ok (c.final s)
  numArcs : ∀ s, checkedNumArcs (k.restore c.payload) c s = .ok (c.view.numArcs s)
  arcs : ∀ s, checkedArcs (k.restore c.payload) c s = .ok (c.arcs s)
  inputEpsilons : ∀ s, checkedEpsilons (k.restore c.payload) c false s = .ok (c.inputEpsilons s)
  outputEpsilons : ∀ s, checkedEpsilons (k.restore c.payload) c true s = .ok (c.outputEpsilons s)
  stringLabels : checkedStringLabels (k.restore c.payload) c = .ok c.view.stringLabels?
  survey : checkedSurvey (k.restore c.payload) c = .ok c.view.survey
  expand : 24 + 16 * c.store.numElements < arrayLimit →
    ∀ s, checkedExpand (k.restore c.payload) c s = .ok (c.expand s)

/-- The entries of states that can be numbered lead to states that can be numbered. -/
theorem queryable_of_holds {c : Compact (k.format algebra width)}
    {rows : List (List k.packing.Element)} (holds : c.store.Holds rows)
    (numbered : c.store.numStates ≤ 2147483647) (few : c.store.numElements < wordLimit) :
    c.Queryable rows (k.restore c.payload) := by
  refine ⟨holds, numbered, few, ?_⟩
  intro s e member fields
  obtain ⟨i, position, below⟩ := Store.position_of_mem_window member
  have value := position?_eq_some_iff.1 position
  exact k.restore_eq c.payload (by omega) e fields

theorem Queryable.answers {c : Compact (k.format algebra width)}
    {rows : List (List k.packing.Element)} (queryable : c.Queryable rows (k.restore c.payload))
    (room : 4 * c.store.numElements < arrayLimit)
    (slim : c.cache.Slim (24 + 16 * c.store.numElements)) : c.Answers k where
  window := queryable.window_eq
  final := queryable.final_eq
  numArcs := queryable.numArcs_eq
  arcs := queryable.arcs_eq
  inputEpsilons := queryable.inputEpsilons_eq
  outputEpsilons := queryable.outputEpsilons_eq
  stringLabels := queryable.stringLabels_eq
  survey := queryable.survey_eq room
  expand := queryable.expand_eq slim

/-- No element of a stock packing takes less than a label. -/
theorem four_le_size (k : Stock) : 4 ≤ k.packing.layout.size := by
  cases k <;> decide

/-- Expansions leave the store alone and the cache slim, so the machine goes on answering. -/
theorem Vouched.answers_expandAll {c : Compact (k.format algebra width)} {left : Nat}
    (vouched : c.Vouched left) (fits : left < arrayLimit) (states : List StateId) :
    (c.expandAll states).Answers k := by
  have words := arrayLimit_lt_wordLimit
  have numbered := vouched.numbered
  have filled : c.store.numElements * k.packing.layout.size ≤ left := vouched.filled
  have bytes := Nat.mul_le_mul_left c.store.numElements (four_le_size k)
  have room : 4 * c.store.numElements < arrayLimit := by omega
  have few : c.store.numElements < wordLimit := by omega
  have slim : c.cache.Slim (24 + 16 * c.store.numElements) := by
    rw [vouched.fresh]
    exact ArcCache.slim_empty _
  obtain ⟨rows, holds⟩ := vouched.rows
  obtain ⟨_, held, same⟩ := (queryable_of_holds holds numbered few).expandAll slim states
  rw [← same] at holds numbered few room
  exact (queryable_of_holds holds numbered few).answers room held

end

end Compact

/-- Whatever the bytes are, and wherever they come from, reading them meets a trap exactly if the
largest key is among those that they give to symbols, which are the keys of the tables where a
machine is read. Otherwise it gives an error that the bytes or the reader account for, or a machine
that is sturdy and answers every question, also after any of its states were expanded. -/
theorem read_safe (k : Stock) (algebra : Algebra) (width : OffsetWidth) (name : String)
    (mode : ReadMode) {source : Source} (sound : source.Sound)
    (fits : source.position + source.left < arrayLimit) :
    (CheckedReading.file k algebra width name mode source
      = if Int64.maxValue ∈ Compact.keysMet (k.format algebra width) name source
        then .error .lastKey
        else .ok (Compact.read (k.format algebra width) name mode source))
      ∧ (∀ cause, (Compact.read (k.format algebra width) name mode source).1 = .error cause →
        cause.isMishap = false)
      ∧ ∀ c after, Compact.read (k.format algebra width) name mode source = (.ok c, after) →
        Compact.keysMet (k.format algebra width) name source = c.symbols.keys
          ∧ c.Sturdy ∧ ∀ states, (c.expandAll states).Answers k := by
  refine ⟨?_, ?_, ?_⟩
  · exact (CheckedReading.tracks_file k algebra width name mode).outcome source sound fits
  · exact (Compact.orderly_read (F := k.format algebra width) k.plain_readPayload.orderly name mode
      source sound).refuses
  · intro c after read
    have vouched := Compact.vouched_of_read k.plain_readPayload sound read
    exact ⟨Compact.keysMet_of_read read, vouched.sturdy, vouched.answers_expandAll (by omega)⟩

/-- The file of a string, borrowed from a mapping. -/
theorem read_safe_lettered : ∃ d after,
    CheckedReading.file .string .tropical .four "lettered" .borrow
        (Source.ofMapping (lettered.write ⟨true, true, true⟩ Sink.unlimited).2.received)
        = .ok (.ok d, after)
      ∧ d.Sturdy ∧ ∀ states, (d.expandAll states).Answers .string := by
  have finished : (CheckedReading.file .string .tropical .four "lettered" .borrow
      (Source.ofMapping (lettered.write ⟨true, true, true⟩ Sink.unlimited).2.received)).map
        (fun outcome => outcome.1.isOk) = .ok true := by
    decide +kernel
  obtain ⟨short, _⟩ := lettered_received
  generalize (lettered.write ⟨true, true, true⟩ Sink.unlimited).2.received = bytes
    at finished short ⊢
  have fits : (Source.ofMapping bytes).position + (Source.ofMapping bytes).left < arrayLimit := by
    change 0 + (bytes.length - 0) < fileLimit
    omega
  obtain ⟨outcome, _, sturdy⟩ := read_safe .string .tropical .four "lettered" .borrow
    (Source.sound_ofMapping bytes) fits
  split at outcome
  · rw [outcome] at finished
    cases finished
  · rw [outcome] at finished ⊢
    generalize read : Compact.read (Stock.string.format .tropical .four) "lettered" .borrow
      (Source.ofMapping bytes) = result at finished sturdy ⊢
    obtain ⟨result, after⟩ := result
    cases result with
    | error cause => cases finished
    | ok d => exact ⟨d, after, rfl, (sturdy d after rfl).2⟩

end Transducer
