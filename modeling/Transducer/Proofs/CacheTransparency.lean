import Transducer.Proofs.CheckedExpansion
import Transducer.Proofs.StoreInvariant
/-!
# The cache does not show

Arcs are decoded in two ways: a cursor leaves out the first entry of a state if it is a final one,
an expansion looks at every entry and puts the outcome into the cache. The two agree on rows in
which only the front may be a final entry (`decode_eq_uncached`). What is cached then stays what the
store shows: evictions keep some of the states (`ArcCache.Reflects.insert`), and whatever replaces
the store or the options empties the cache (`Faithful.respond`). Main statement: in every history of
calls on a machine and its clones, expanding gives what the store of that moment shows, and elements
that are refused leave everything as it was (`cache_transparent`).
-/
namespace Transducer

namespace ArcCache

variable {cache : ArcCache} {shown : StateId → DecodedState} {s : StateId} {state : DecodedState}

/-- Every cached state is the one shown under its number. -/
def Reflects (cache : ArcCache) (shown : StateId → DecodedState) : Prop :=
  ∀ entry ∈ cache.entries, entry.2 = shown entry.1

theorem reflects_empty (options : CacheOptions) : (empty options).Reflects shown :=
  List.forall_mem_nil _

theorem reflects_clear (cache : ArcCache) : cache.clear.Reflects shown :=
  List.forall_mem_nil _

/-- What is found in the cache is one of its entries. -/
theorem Reflects.eq_of_get? (reflects : cache.Reflects shown) (found : cache.get? s = some state) :
    state = shown s := by
  unfold get? at found
  obtain ⟨front, back, parts, _⟩ := List.lookup_eq_some_iff.1 found
  exact reflects (s, state) (by simp [parts])

/-- Putting a state in brings in no other entry, whatever it drops. -/
theorem mem_entries_insert {entry : StateId × DecodedState}
    (member : entry ∈ (cache.insert s state).entries) :
    entry = (s, state) ∨ entry ∈ cache.entries := by
  have kept : entry ∈ (cache.entries.filter fun entry => entry.1 != s) ++ [(s, state)] := by
    unfold insert at member
    by_cases collecting : cache.options.collect = true
    · simp only [collecting, if_true] at member
      exact (evict_suffix _ _ _).subset member
    · simpa [collecting] using member
  rcases List.mem_append.1 kept with older | newest
  · exact Or.inr (List.mem_of_mem_filter older)
  · exact Or.inl (List.mem_singleton.1 newest)

theorem Reflects.insert (reflects : cache.Reflects shown) (s : StateId) :
    (cache.insert s (shown s)).Reflects shown := by
  intro entry member
  rcases mem_entries_insert member with rfl | older
  · rfl
  · exact reflects entry older

end ArcCache

namespace Compact

variable {F : Format} {c : Compact F} {s : StateId}

/-- What the entries of a state show: its final weight, and its arcs as a cursor gives them. -/
def uncached (c : Compact F) (s : StateId) : DecodedState := ⟨c.final s, c.arcs s⟩

/-! ## Two ways of decoding -/

/-- Entries that are no final ones are decoded to arcs, in order. -/
theorem foldl_decodeEntry_of_arcs (uniform : F.packing.Uniform c.payload)
    {entries : List F.packing.Element}
    (arcs : ∀ e ∈ entries, F.packing.isFinalEntry c.payload 0 e = false) (state : DecodedState) :
    entries.foldl (decodeEntry c.payload s) state = { state with
      arcs := state.arcs ++ entries.map fun e => F.packing.unpack c.payload s e Fields.all } := by
  induction entries generalizing state with
  | nil => simp
  | cons e rest ih =>
    rw [List.forall_mem_cons] at arcs
    have label : (F.packing.unpack c.payload s e Fields.all).ilabel ≠ noLabel := by
      rw [uniform.ilabel]
      exact beq_eq_false_iff_ne.1 arcs.1
    rw [List.foldl_cons, ih arcs.2]
    simp [decodeEntry, label]

/-- Both ways agree where only the front may be a final entry. -/
theorem decode_eq_uncached (uniform : F.packing.Uniform c.payload)
    (weights : ∀ e, (F.packing.unpack c.payload s e Fields.all).weight
      = (F.packing.unpack c.payload s e Fields.inputAndWeight).weight)
    (tail : ∀ e ∈ (c.window s).tail, F.packing.isFinalEntry c.payload 0 e = false) :
    c.decode s = c.uncached s := by
  change (c.window s).foldl (decodeEntry c.payload s) ⟨Weight.zero, []⟩ = _
  unfold uncached final
  rw [arcs_eq, Packing.arcEntries, startsFinal_eq uniform]
  cases window : c.window s with
  | nil => simp
  | cons e rest =>
    rw [window] at tail
    change ∀ e ∈ rest, _ at tail
    rw [List.foldl_cons, foldl_decodeEntry_of_arcs uniform tail]
    by_cases marked : F.packing.inputLabel c.payload 0 e = noLabel
    · have front : F.packing.isFinalEntry c.payload 0 e = true := beq_iff_eq.2 marked
      simp [decodeEntry, uniform.ilabel, marked, front, weights]
    · have front : F.packing.isFinalEntry c.payload 0 e = false := beq_eq_false_iff_ne.2 marked
      simp [decodeEntry, uniform.ilabel, marked, front]

/-! ## Histories -/

/-- The arcs of a state, from the cache if it is there, and the machine with it in the cache. -/
def cachedArcs (c : Compact F) (s : StateId) : List Arc × Compact F :=
  ((c.expand s).1.arcs, (c.expand s).2)

/-- Calls that look into the cache of a machine, or change the cache or the store. -/
inductive Call (F : Format) where
  | expand (s : StateId)
  | cachedArcs (s : StateId)
  | isCached (s : StateId)
  | clone
  | withCacheOptions (options : CacheOptions)
  | setElements (elements : List F.packing.Element)

/-- What a call gives back. -/
inductive Answer where
  | decoded (state : DecodedState)
  | arcs (arcs : List Arc)
  | cached (there : Bool)
  | done
  | refused (cause : Error)

/-- The answer of a machine to a call, and the machine as the call leaves it. -/
def respond (c : Compact F) : Call F → Answer × Compact F
  | .expand s => (.decoded (c.expand s).1, (c.expand s).2)
  | .cachedArcs s => (.arcs (c.cachedArcs s).1, (c.cachedArcs s).2)
  | .isCached s => (.cached (c.isCached s), c)
  | .clone => (.done, c)
  | .withCacheOptions options => (.done, c.withCacheOptions options)
  | .setElements elements =>
    match c.setElements elements with
    | .ok after => (.done, after)
    | .error cause => (.refused cause, c)

/-- The machine that a call adds. -/
def added (c : Compact F) : Call F → List (Compact F)
  | .clone => [c.clone]
  | _ => []

/-- A call on the machine at a position of a list, if there is one. What the call adds is put behind
the others. -/
def callAt (machines : List (Compact F)) (i : Nat) (call : Call F) :
    Option Answer × List (Compact F) :=
  match machines[i]? with
  | some c => (some (c.respond call).1, machines.set i (c.respond call).2 ++ c.added call)
  | none => (none, machines)

/-- The machines after a history of calls. -/
def afterCalls (machines : List (Compact F)) (history : List (Nat × Call F)) : List (Compact F) :=
  history.foldl (fun machines call => (callAt machines call.1 call.2).2) machines

/-- The store is decoded the same in both ways, and the cache holds what it shows. -/
structure Faithful (c : Compact F) : Prop where
  decode : ∀ s, c.decode s = c.uncached s
  cache : c.cache.Reflects c.uncached

theorem view_expand (c : Compact F) (s : StateId) : (c.expand s).2.view = c.view := by
  unfold Compact.expand
  cases c.cache.get? s <;> rfl

theorem Faithful.expand_fst (faithful : c.Faithful) (s : StateId) :
    (c.expand s).1 = c.uncached s := by
  unfold Compact.expand
  cases cached : c.cache.get? s with
  | some state => exact faithful.cache.eq_of_get? cached
  | none => exact faithful.decode s

theorem Faithful.expand_snd (faithful : c.Faithful) (s : StateId) :
    (c.expand s).2.Faithful := by
  unfold Compact.expand
  cases cached : c.cache.get? s with
  | some state => exact faithful
  | none =>
    refine ⟨faithful.decode, ?_⟩
    rw [faithful.decode s]
    exact faithful.cache.insert s

theorem Faithful.withCacheOptions (faithful : c.Faithful) (options : CacheOptions) :
    (c.withCacheOptions options).Faithful :=
  ⟨faithful.decode, ArcCache.reflects_empty options⟩

/-! ## Stock packings -/

variable {k : Stock} {algebra : Algebra} {width : OffsetWidth}
  {c : Compact (k.format algebra width)}

/-- Stores that stock packings build are decoded the same in both ways. -/
theorem decode_of_builtPlain (built : c.store.BuiltPlain c.payload) (s : StateId) :
    c.decode s = c.uncached s := by
  obtain ⟨rows, holds, tidy⟩ := built.exists_tidy
  exact decode_eq_uncached (k.uniform c.payload) (k.weight_unpack_all c.payload s)
    fun _ => isFinalEntry_of_mem_tail_window holds tidy

/-- A machine whose elements were replaced starts over with an empty cache. -/
theorem faithful_of_setElements {elements : List k.packing.Element}
    {after : Compact (k.format algebra width)} (made : c.setElements elements = .ok after) :
    after.Faithful := by
  obtain ⟨stored, same, _⟩ := frame_of_setElements made
  have plain : after.store.BuiltPlain after.payload := by
    rw [same]
    exact .gathered stored
  obtain ⟨store, _, built⟩ := bind_eq_ok_iff.1 made
  cases built
  exact ⟨decode_of_builtPlain plain, ArcCache.reflects_clear _⟩

/-- Every call leaves a faithful machine faithful. -/
theorem Faithful.respond (faithful : c.Faithful) (call : Call (k.format algebra width)) :
    (c.respond call).2.Faithful := by
  cases call with
  | expand s => exact faithful.expand_snd s
  | cachedArcs s => exact faithful.expand_snd s
  | isCached s => exact faithful
  | clone => exact faithful
  | withCacheOptions options => exact faithful.withCacheOptions options
  | setElements elements =>
    cases made : c.setElements elements with
    | ok after =>
      simp only [Compact.respond, made]
      exact faithful_of_setElements made
    | error cause =>
      simp only [Compact.respond, made]
      exact faithful

theorem Faithful.added (faithful : c.Faithful) (call : Call (k.format algebra width)) :
    ∀ m ∈ c.added call, m.Faithful := by
  cases call with
  | clone => exact List.forall_mem_singleton.2 (faithful.withCacheOptions _)
  | expand | cachedArcs | isCached | withCacheOptions | setElements =>
    exact List.forall_mem_nil _

variable {machines : List (Compact (k.format algebra width))}

theorem faithful_callAt (faithful : ∀ m ∈ machines, m.Faithful) (i : Nat)
    (call : Call (k.format algebra width)) :
    ∀ m ∈ (callAt machines i call).2, m.Faithful := by
  unfold callAt
  cases there : machines[i]? with
  | none => exact faithful
  | some c =>
    have called : c.Faithful := faithful c (List.mem_of_getElem? there)
    simp only
    rw [List.forall_mem_append]
    refine ⟨fun m member => ?_, called.added call⟩
    rcases List.mem_or_eq_of_mem_set member with older | rfl
    · exact faithful m older
    · exact called.respond call

/-- Whatever was called, and on which of the machines, all of them stay faithful. -/
theorem faithful_afterCalls (faithful : ∀ m ∈ machines, m.Faithful)
    (history : List (Nat × Call (k.format algebra width))) :
    ∀ m ∈ afterCalls machines history, m.Faithful := by
  induction history generalizing machines with
  | nil => exact faithful
  | cons call history ih => exact ih (faithful_callAt faithful call.1 call.2)

/-- Packed from a view without arcs of the reserved label, or from elements. -/
inductive Fresh {F : Format} : Compact F → Prop where
  | packed {payload : F.packing.Payload} {v : View} {c : Compact F}
      (made : ofView? payload v = .ok c)
      (plain : ∀ s ∈ v.states, ∀ a ∈ v.arcs s, a.ilabel ≠ noLabel) : Fresh c
  | gathered {payload : F.packing.Payload} {elements : List F.packing.Element} {c : Compact F}
      (made : ofElements? payload elements = .ok c) : Fresh c

theorem Fresh.faithful (fresh : c.Fresh) : c.Faithful := by
  cases fresh with
  | packed made plain =>
    obtain ⟨_, store, stored, rfl⟩ := ofView?_eq_ok_iff.1 made
    exact ⟨decode_of_builtPlain (.packed stored plain), ArcCache.reflects_empty _⟩
  | gathered made =>
    obtain ⟨store, stored, built⟩ := bind_eq_ok_iff.1 made
    cases built
    exact ⟨decode_of_builtPlain (.gathered stored), ArcCache.reflects_empty _⟩

/-- Elements that are refused change nothing, in the cache or elsewhere. -/
theorem callAt_of_refused {F : Format} {machines : List (Compact F)} {i : Nat} {m : Compact F}
    (there : machines[i]? = some m) {elements : List F.packing.Element} {cause : Error}
    (refused : m.setElements elements = .error cause) :
    callAt machines i (.setElements elements) = (some (.refused cause), machines) := by
  obtain ⟨below, rfl⟩ := List.getElem?_eq_some_iff.1 there
  simp [callAt, there, respond, refused, added]

end Compact

/-- Whatever is called on a machine and its clones, in whatever order and under whatever options of
their caches, expanding a state of one of them gives the final weight and the arcs that its store
shows at that moment, and changes nothing that it shows. Elements that are refused leave all of them
as they were, their caches included. -/
theorem cache_transparent (k : Stock) (algebra : Algebra) (width : OffsetWidth)
    {c : Compact (k.format algebra width)} (fresh : c.Fresh)
    (history : List (Nat × Compact.Call (k.format algebra width))) {i : Nat}
    {m : Compact (k.format algebra width)}
    (there : (Compact.afterCalls [c] history)[i]? = some m) :
    (∀ s, (Compact.callAt (Compact.afterCalls [c] history) i (.expand s)).1
          = some (.decoded ⟨m.view.final s, m.view.arcs s⟩)
        ∧ (Compact.callAt (Compact.afterCalls [c] history) i (.cachedArcs s)).1
          = some (.arcs (m.view.arcs s))
        ∧ (m.expand s).2.view = m.view)
      ∧ ∀ elements cause, m.setElements elements = .error cause →
        Compact.callAt (Compact.afterCalls [c] history) i (.setElements elements)
          = (some (.refused cause), Compact.afterCalls [c] history) := by
  have faithful : m.Faithful := Compact.faithful_afterCalls
    (List.forall_mem_singleton.2 fresh.faithful) history m (List.mem_of_getElem? there)
  constructor
  · intro s
    have expanded : (m.expand s).1 = ⟨m.view.final s, m.view.arcs s⟩ := faithful.expand_fst s
    refine ⟨?_, ?_, m.view_expand s⟩
    · simp [Compact.callAt, there, Compact.respond, expanded]
    · simp [Compact.callAt, there, Compact.respond, Compact.cachedArcs, expanded]
  · intro elements cause refused
    exact Compact.callAt_of_refused there refused

/-- A state is cached and the machine cloned; the clone keeps all that it expands, is refused an arc
in front of any state, and is given the elements of one final state instead of its own. -/
def pairHistory : List (Nat × Compact.Call (Stock.acceptor.format .tropical .one)) :=
  [(0, .expand 0), (0, .clone), (1, .withCacheOptions ⟨false, 0⟩), (1, .expand 0), (1, .expand 1),
    (1, .setElements [⟨1, Weight.one, 0⟩]), (1, .setElements [⟨noLabel, Weight.one, noState⟩])]

theorem cache_transparent_pairHistory :
    (Compact.callAt (Compact.afterCalls [gatheredPair] pairHistory) 0 (.expand 0)).1
        = some (.decoded ⟨Weight.zero, [⟨1, 1, Weight.one, 1⟩]⟩)
      ∧ (Compact.callAt (Compact.afterCalls [gatheredPair] pairHistory) 1 (.expand 0)).1
        = some (.decoded ⟨Weight.one, []⟩)
      ∧ Compact.callAt (Compact.afterCalls [gatheredPair] pairHistory) 1
          (.setElements [⟨1, Weight.one, 0⟩])
        = (some (.refused (.illFormed .arcBeforeState)),
          Compact.afterCalls [gatheredPair] pairHistory) := by
  have made : Compact.ofElements? () markedPair = .ok gatheredPair := by
    rfl
  have first : ∃ m, (Compact.afterCalls [gatheredPair] pairHistory)[0]? = some m
      ∧ (⟨m.view.final 0, m.view.arcs 0⟩ : DecodedState)
        = ⟨Weight.zero, [⟨1, 1, Weight.one, 1⟩]⟩ := ⟨_, rfl, rfl⟩
  have second : ∃ m, (Compact.afterCalls [gatheredPair] pairHistory)[1]? = some m
      ∧ (⟨m.view.final 0, m.view.arcs 0⟩ : DecodedState) = ⟨Weight.one, []⟩
      ∧ m.setElements [⟨1, Weight.one, 0⟩] = .error (.illFormed .arcBeforeState) :=
    ⟨_, rfl, rfl, rfl⟩
  obtain ⟨m, there, shown⟩ := first
  obtain ⟨n, cloned, replaced, refused⟩ := second
  obtain ⟨expanded, _⟩ := cache_transparent .acceptor .tropical .one (.gathered made) pairHistory
    there
  obtain ⟨anew, kept⟩ := cache_transparent .acceptor .tropical .one (.gathered made) pairHistory
    cloned
  refine ⟨?_, ?_, kept _ _ refused⟩
  · rw [(expanded 0).1, shown]
  · rw [(anew 0).1, replaced]

end Transducer
