import Transducer.Proofs.CacheTransparency
/-!
# Machines left by a failure

A failure leaves an empty machine that carries the error twice: as a value, and as a trait it
declares. Writing asks for the value; packing, and writing without packing first, ask the source for
the trait. Edits change one or the other only together (`Standing.edit`): elements that are accepted
clear both, and nothing else touches them. Of a machine in error nothing can be got, and nothing is
written (`Failed.inert`). Main statement: this holds after every history of edits; elements that are
refused change nothing, and after elements that are accepted there is no error again
(`error_state_consistent`).
-/
namespace Transducer

open TraitWord

namespace Compact

variable {F : Format} {c after : Compact F}

/-! ## Edits -/

/-- A step in the history of a machine: a call, going on with its clone instead, or another symbol
table. -/
inductive Edit (F : Format) where
  | call (call : Call F)
  | copy
  | inputSymbols (table : Option SymbolTable)
  | outputSymbols (table : Option SymbolTable)

def edit (c : Compact F) : Edit F → Compact F
  | .call call => (c.respond call).2
  | .copy => c.clone
  | .inputSymbols table => c.setInputSymbols table
  | .outputSymbols table => c.setOutputSymbols table

/-- The machine after a history of edits. -/
def edited (c : Compact F) (edits : List (Edit F)) : Compact F := edits.foldl edit c

/-- What stays when no other elements are brought in: store, traits and error; and what is cached
stays what the store is decoded to. -/
structure Keeps (c after : Compact F) : Prop where
  error : after.error = c.error
  properties : after.properties = c.properties
  store : after.store = c.store
  cache : c.cache.Reflects c.decode → after.cache.Reflects c.decode

theorem keeps_self (c : Compact F) : c.Keeps c := ⟨rfl, rfl, rfl, id⟩

theorem keeps_expand (c : Compact F) (s : StateId) : c.Keeps (c.expand s).2 := by
  unfold Compact.expand
  cases c.cache.get? s with
  | some state => exact c.keeps_self
  | none => exact ⟨rfl, rfl, rfl, fun reflects => reflects.insert s⟩

theorem keeps_withCacheOptions (c : Compact F) (options : CacheOptions) :
    c.Keeps (c.withCacheOptions options) :=
  ⟨rfl, rfl, rfl, fun _ => ArcCache.reflects_empty options⟩

/-- An edit brings in elements that are accepted, or else it keeps all but the symbol tables and the
cache. -/
theorem edit_cases (c : Compact F) (change : Edit F) :
    (∃ elements, c.setElements elements = .ok (c.edit change)) ∨ c.Keeps (c.edit change) := by
  cases change with
  | call call =>
    cases call with
    | expand s | cachedArcs s => exact Or.inr (c.keeps_expand s)
    | isCached | clone => exact Or.inr c.keeps_self
    | withCacheOptions options => exact Or.inr (c.keeps_withCacheOptions options)
    | setElements elements =>
      cases made : c.setElements elements with
      | ok after =>
        refine Or.inl ⟨elements, ?_⟩
        simp only [edit, respond, made]
      | error cause =>
        simp only [edit, respond, made]
        exact Or.inr c.keeps_self
  | copy => exact Or.inr (c.keeps_withCacheOptions _)
  | inputSymbols | outputSymbols => exact Or.inr ⟨rfl, rfl, rfl, id⟩

/-- Packed from a view, or gathered from elements; a failure leaves an empty machine. -/
inductive Begun : Compact F → Prop where
  | packed (payload : F.packing.Payload) (v : View) : Begun (ofView payload v)
  | gathered (payload : F.packing.Payload) (elements : List F.packing.Element) :
      Begun (ofElements payload elements)

/-! ## The two places of an error -/

/-- Left by a failure: empty, with the error in both places. -/
structure Failed (c : Compact F) : Prop where
  error : c.error.isSome
  properties : c.properties = failed ||| expanded
  store : c.store = Store.empty F.packing F.width
  cache : c.cache.Reflects fun _ => ⟨Weight.zero, []⟩

/-- Without an error in either place. -/
structure Clean (c : Compact F) : Prop where
  error : c.error = none
  properties : c.properties &&& failed = 0

theorem failed_ofError (payload : F.packing.Payload) (cause : Error) :
    (ofError (F := F) payload cause).Failed :=
  ⟨rfl, rfl, rfl, ArcCache.reflects_empty _⟩

namespace Failed

variable (left : c.Failed)
include left

theorem properties_ne : c.properties &&& failed ≠ 0 := by
  rw [left.properties]
  decide

theorem window (s : StateId) : c.window s = [] := by
  unfold Compact.window
  rw [left.store]
  exact Store.window_empty _ _ s

theorem decode (s : StateId) : c.decode s = ⟨Weight.zero, []⟩ := by
  unfold Compact.decode
  rw [left.window]
  rfl

theorem expand_fst (s : StateId) : (c.expand s).1 = ⟨Weight.zero, []⟩ := by
  unfold Compact.expand
  cases cached : c.cache.get? s with
  | some state => exact left.cache.eq_of_get? cached
  | none => exact left.decode s

theorem keeps (kept : c.Keeps after) : after.Failed := by
  have decoded : c.decode = fun _ => ⟨Weight.zero, []⟩ := funext left.decode
  have reflects := kept.cache
  rw [decoded] at reflects
  exact ⟨kept.error ▸ left.error, kept.properties.trans left.properties,
    kept.store.trans left.store, reflects left.cache⟩

end Failed

/-! ## What a machine in error gives -/

/-- Nothing is to be got: the machine shows no state, and whatever takes it as its source refuses it
as the result of a failure, before the first byte is written. -/
structure Inert (c : Compact F) : Prop where
  start : c.view.start = noState
  numStates : c.view.numStates = 0
  final : ∀ s, c.view.final s = Weight.zero
  arcs : ∀ s, c.view.arcs s = []
  epsilons : ∀ s, c.view.inputEpsilons s = 0 ∧ c.view.outputEpsilons s = 0
  expand : ∀ s, (c.expand s).1 = ⟨Weight.zero, []⟩
  write : ∀ options sink, c.write options sink = (.error .propagated, sink)
  writeSame : ∀ payload options sink,
    writeDirect payload (.same c) options sink = (.error .propagated, sink)
  writeOther : ∀ (G : Format) (payload : G.packing.Payload) options sink,
    writeDirect payload (.other c.view) options sink = (.error .propagated, sink)
  pack : ∀ (G : Format) (payload : G.packing.Payload),
    ofView? payload c.view = .error .propagated
  withStore : ∀ (G : Format) (payload : G.packing.Payload) (store : Store G.packing G.width),
    withStore payload store c.view = .error .propagated
  /-- A machine packed from it all the same is in error. -/
  spreads : ∀ (G : Format) (payload : G.packing.Payload),
    (ofView payload c.view).error = some .propagated

theorem checkSource_of_isFailed {P : Packing} {v : View} (failed : v.isFailed = true) :
    checkSource P v = .error .propagated := if_pos failed

theorem writeDirect_of_checkSource {payload : F.packing.Payload} (origin : Origin F)
    (options : WriteOptions) (sink : Sink) {cause : Error}
    (refused : checkSource F.packing origin.view = .error cause) :
    writeDirect payload origin options sink = (.error cause, sink) := by
  unfold writeDirect
  rw [directSegments?_of_checkSource origin refused]
  rfl

namespace Failed

variable (left : c.Failed)
include left

/-- Every packing refuses a machine in error as a source. -/
theorem checkSource_view (P : Packing) : checkSource P c.view = .error .propagated := by
  have asked : c.view.isFailed = true := bne_iff_ne.2 left.properties_ne
  exact checkSource_of_isFailed asked

theorem ofView?_view {G : Format} (payload : G.packing.Payload) :
    ofView? payload c.view = .error .propagated :=
  ofView?_of_checkSource payload (left.checkSource_view G.packing)

/-- No state is in range. -/
theorem bare (s : StateId) : c.view.final s = Weight.zero ∧ c.view.arcs s = [] := by
  refine bare_view c s ?_
  rintro ⟨nonneg, below⟩
  change s.toInt < c.store.numStates at below
  rw [left.store] at below
  change s.toInt < 0 at below
  omega

theorem inert : c.Inert where
  start := by
    change c.store.start = noState
    rw [left.store]
    rfl
  numStates := by
    change c.store.numStates = 0
    rw [left.store]
    rfl
  final s := (left.bare s).1
  arcs s := (left.bare s).2
  epsilons s := by
    change F.packing.countEpsilons _ _ _ _ (c.window s) = 0
      ∧ F.packing.countEpsilons _ _ _ _ (c.window s) = 0
    rw [left.window]
    exact ⟨rfl, rfl⟩
  expand := left.expand_fst
  write options sink := by
    obtain ⟨cause, failed⟩ := Option.isSome_iff_exists.1 left.error
    unfold Compact.write
    rw [segments?_of_error failed]
    rfl
  writeSame payload options sink :=
    writeDirect_of_checkSource (.same c) options sink (left.checkSource_view F.packing)
  writeOther G payload options sink :=
    writeDirect_of_checkSource (.other c.view) options sink (left.checkSource_view G.packing)
  pack G payload := left.ofView?_view payload
  withStore G payload store := by
    unfold Compact.withStore
    rw [left.checkSource_view]
    rfl
  spreads G payload := by
    unfold ofView
    rw [left.ofView?_view]
    rfl

end Failed

/-! ## Histories -/

/-- An error is in both places or in neither. -/
inductive Standing (c : Compact F) : Prop where
  | inError (left : c.Failed)
  | clean (clean : c.Clean)

theorem Standing.isSome_iff (standing : c.Standing) :
    c.error.isSome ↔ c.properties &&& failed ≠ 0 := by
  cases standing with
  | inError left => exact iff_of_true left.error left.properties_ne
  | clean clean =>
    rw [clean.error, clean.properties]
    simp

theorem Standing.failed_of_isSome (standing : c.Standing) (error : c.error.isSome) :
    c.Failed := by
  cases standing with
  | inError left => exact left
  | clean clean =>
    rw [clean.error] at error
    cases error

variable {k : Stock} {algebra : Algebra} {width : OffsetWidth}
  {c after : Compact (k.format algebra width)}

theorem clean_of_ofView {payload : k.packing.Payload} {v : View}
    (made : ofView? payload v = .ok c) : c.Clean := by
  obtain ⟨good, _⟩ := checkSource_eq_ok_iff.1 (checkSource_of_ofView made)
  obtain ⟨_, _, _, error, _⟩ := frame_of_ofView made
  have declared : c.view.properties &&& failed = 0 := by simpa [View.isFailed] using good
  exact ⟨error, declared⟩

theorem clean_of_required (error : c.error = none)
    (properties : c.properties = k.packing.required ||| expanded) : c.Clean := by
  refine ⟨error, ?_⟩
  rw [properties]
  cases k <;> decide

theorem clean_of_setElements {elements : List k.packing.Element}
    (made : c.setElements elements = .ok after) : after.Clean := by
  obtain ⟨_, _, properties, _, error⟩ := frame_of_setElements made
  exact clean_of_required error properties

theorem Begun.standing (begun : c.Begun) : c.Standing := by
  cases begun with
  | packed payload v =>
    unfold ofView
    cases made : ofView? payload v with
    | ok c => exact .clean (clean_of_ofView made)
    | error cause => exact .inError (failed_ofError payload cause)
  | gathered payload elements =>
    unfold ofElements
    cases made : ofElements? payload elements with
    | ok c =>
      obtain ⟨_, _, properties, _, error⟩ := frame_of_ofElements made
      exact .clean (clean_of_required error properties)
    | error cause => exact .inError (failed_ofError payload cause)

/-- Nothing brings an error into a machine without one. -/
theorem Clean.edit (clean : c.Clean) (change : Edit (k.format algebra width)) :
    (c.edit change).Clean := by
  rcases c.edit_cases change with ⟨elements, made⟩ | kept
  · exact clean_of_setElements made
  · exact ⟨kept.error.trans clean.error, kept.properties ▸ clean.properties⟩

/-- Elements that are accepted take the error out of both places, and nothing else out of either. -/
theorem Standing.edit (standing : c.Standing) (change : Edit (k.format algebra width)) :
    (c.edit change).Standing := by
  cases standing with
  | clean clean => exact .clean (clean.edit change)
  | inError left =>
    rcases c.edit_cases change with ⟨elements, made⟩ | kept
    · exact .clean (clean_of_setElements made)
    · exact .inError (left.keeps kept)

theorem Standing.edited (standing : c.Standing) (edits : List (Edit (k.format algebra width))) :
    (c.edited edits).Standing := by
  induction edits generalizing c with
  | nil => exact standing
  | cons change edits ih => exact ih (standing.edit change)

theorem Clean.edited (clean : c.Clean) (edits : List (Edit (k.format algebra width))) :
    (c.edited edits).Clean := by
  induction edits generalizing c with
  | nil => exact clean
  | cons change edits ih => exact ih (clean.edit change)

/-- A machine without an error is written exactly if its texts fit. -/
theorem Clean.write_iff (clean : c.Clean) (options : WriteOptions) :
    (c.write options Sink.unlimited).1 = .ok () ↔ (options.select c.symbols).TextsFit := by
  have payload : ∀ segment ∈ k.packing.payloadSegments c.payload, segment.Writable := by
    rw [k.payloadSegments_eq_nil]
    exact List.forall_mem_nil _
  rw [write_unlimited_eq_ok_iff]
  constructor
  · intro written
    exact written.2.2.1
  · intro texts
    exact ⟨clean.error, k.textFits_typeName algebra width, texts, payload⟩

end Compact

/-- Whatever is done with a stock machine that was packed or gathered, be it in error or not: it has
an error exactly if it declares that it failed; while it does, nothing is to be got of it and
nothing is written. Elements that are refused leave it as it was. After elements that are accepted
there is no error in either place, for good, and the machine is written whenever the texts of the
tables to be written fit their lengths. -/
theorem error_state_consistent (k : Stock) (algebra : Algebra) (width : OffsetWidth)
    {c : Compact (k.format algebra width)} (begun : c.Begun)
    (edits : List (Compact.Edit (k.format algebra width))) :
    ((c.edited edits).error.isSome ↔ (c.edited edits).properties &&& TraitWord.failed ≠ 0)
      ∧ ((c.edited edits).error.isSome → (c.edited edits).Inert)
      ∧ (∀ elements cause, (c.edited edits).setElements elements = .error cause →
        (c.edited edits).respond (.setElements elements) = (.refused cause, c.edited edits))
      ∧ ∀ elements after, (c.edited edits).setElements elements = .ok after →
        (c.edited edits).respond (.setElements elements) = (.done, after)
          ∧ ∀ later, (after.edited later).error = none
            ∧ (after.edited later).properties &&& TraitWord.failed = 0
            ∧ ∀ options, ((after.edited later).write options Sink.unlimited).1 = .ok ()
              ↔ (options.select (after.edited later).symbols).TextsFit := by
  have standing := begun.standing.edited edits
  refine ⟨standing.isSome_iff, fun error => (standing.failed_of_isSome error).inert, ?_, ?_⟩
  · intro elements cause refused
    simp only [Compact.respond, refused]
  · intro elements after made
    refine ⟨by simp only [Compact.respond, made], fun later => ?_⟩
    have clean := (Compact.clean_of_setElements made).edited later
    exact ⟨clean.error, clean.properties, clean.write_iff⟩

/-- Left by an arc in front of any state. -/
def strayArc : Compact (Stock.acceptor.format .tropical .one) :=
  Compact.ofElements () [⟨1, Weight.one, 0⟩]

/-- A state is expanded, a symbol table is given, and the clone is refused the arc again. -/
def strayHistory : List (Compact.Edit (Stock.acceptor.format .tropical .one)) :=
  [.call (.expand 0), .inputSymbols (some (SymbolTable.empty "letters")), .copy,
    .call (.setElements [⟨1, Weight.one, 0⟩])]

theorem error_state_consistent_strayArc :
    (strayArc.edited strayHistory).error = some (.illFormed .arcBeforeState)
      ∧ (strayArc.edited strayHistory).write .standard Sink.unlimited
        = (.error .propagated, Sink.unlimited)
      ∧ ∃ after, (strayArc.edited strayHistory).setElements markedPair = .ok after
        ∧ ((after.edited [.copy]).write .standard Sink.unlimited).1 = .ok () := by
  have begun : strayArc.Begun :=
    .gathered (F := Stock.acceptor.format .tropical .one) () [⟨1, Weight.one, 0⟩]
  obtain ⟨_, inert, _, accepted⟩ := error_state_consistent .acceptor .tropical .one begun
    strayHistory
  have error : (strayArc.edited strayHistory).error = some (.illFormed .arcBeforeState) := by
    rfl
  have made : ∃ after, (strayArc.edited strayHistory).setElements markedPair = .ok after
      ∧ (after.edited [.copy]).symbols = ⟨some (SymbolTable.empty "letters"), none⟩ :=
    ⟨_, rfl, rfl⟩
  obtain ⟨after, made, symbols⟩ := made
  obtain ⟨_, later⟩ := accepted _ _ made
  obtain ⟨_, _, written⟩ := later [.copy]
  have texts : SymbolPair.TextsFit ⟨some (SymbolTable.empty "letters"), none⟩ := by
    constructor
    · rintro table ⟨⟩
      exact ⟨by decide, List.forall_mem_nil _⟩
    · rintro table ⟨⟩
  refine ⟨error, (inert (by rw [error]; rfl)).write _ _, after, made, (written _).2 ?_⟩
  rw [symbols]
  exact texts

end Transducer
