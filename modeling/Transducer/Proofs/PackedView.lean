import Transducer.Proofs.StockPackings
import Transducer.Proofs.StoreOfView
import Transducer.Proofs.ViewFacts
/-!
# What a packed machine shows

The view of a machine packed from a view, in terms of the entries of that view alone. A state
whose entries start with one of the reserved label, be it a final weight or an arc, shows that
entry as its final weight and the rest as its arcs (`arcs_of_ofView`, `final_of_ofView`). Packing
keeps a sound view sound, whatever the labels (`sound_of_ofView`).
-/
namespace Transducer

open TraitWord

namespace Compact

variable {F : Format} {payload : F.packing.Payload} {v : View} {c : Compact F}

theorem checkSource_eq_ok_iff {P : Packing} :
    checkSource P v = .ok () ↔ v.isFailed = false ∧ v.test P.required = P.required := by
  unfold checkSource
  by_cases failed : v.isFailed = true
  · simp [failed]
  · by_cases compatible : v.test P.required = P.required <;> simp [failed, compatible]

/-- Packing succeeds when the source passes its check and its entries fit. -/
theorem ofView?_eq_ok_iff :
    ofView? payload v = .ok c ↔ checkSource F.packing v = .ok ()
      ∧ ∃ store, Store.ofView F.packing F.width payload v = .ok store
        ∧ c = assemble payload store (declaredBy F.packing v) v.symbols := by
  unfold ofView?
  rw [bind_eq_ok_iff]
  constructor
  · rintro ⟨_, checked, rest⟩
    obtain ⟨store, made, built⟩ := bind_eq_ok_iff.1 rest
    exact ⟨checked, store, made, (Except.ok.inj built).symm⟩
  · rintro ⟨checked, store, made, rfl⟩
    exact ⟨(), checked, bind_eq_ok_iff.2 ⟨store, made, rfl⟩⟩

/-- What is kept of the source besides its states. -/
theorem frame_of_ofView (h : ofView? payload v = .ok c) :
    c.payload = payload ∧ c.properties = declaredBy F.packing v ∧ c.symbols = v.symbols
      ∧ c.error = none ∧ c.store.start = v.start ∧ c.store.numStates = v.numStates
      ∧ c.store.numArcs = v.totalArcs := by
  obtain ⟨_, store, made, rfl⟩ := ofView?_eq_ok_iff.1 h
  obtain ⟨holds, start, arcs⟩ := Store.holds_of_ofView made
  refine ⟨rfl, rfl, rfl, rfl, start, ?_, arcs⟩
  change store.numStates = v.numStates
  rw [holds.numStates, Store.rowsOf, List.length_map, View.length_states]

theorem store_holds_of_ofView (h : ofView? payload v = .ok c) :
    c.store.Holds (Store.rowsOf F.packing payload v) := by
  obtain ⟨_, store, made, rfl⟩ := ofView?_eq_ok_iff.1 h
  exact (Store.holds_of_ofView made).1

/-- What is made of packed elements. -/
theorem frame_of_ofElements {elements : List F.packing.Element}
    (h : ofElements? payload elements = .ok c) :
    Store.ofElements F.packing F.width payload elements = .ok c.store ∧ c.payload = payload
      ∧ c.properties = F.packing.required ||| expanded ∧ c.symbols = SymbolPair.none
      ∧ c.error = none := by
  obtain ⟨store, stored, built⟩ := bind_eq_ok_iff.1 h
  cases built
  exact ⟨stored, rfl, rfl, rfl, rfl⟩

/-- Other elements make another store; the packing and the symbol tables stay. -/
theorem frame_of_setElements {before : Compact F} {elements : List F.packing.Element}
    (h : before.setElements elements = .ok c) :
    Store.ofElements F.packing F.width before.payload elements = .ok c.store
      ∧ c.payload = before.payload ∧ c.properties = F.packing.required ||| expanded
      ∧ c.symbols = before.symbols ∧ c.error = none := by
  obtain ⟨store, stored, built⟩ := bind_eq_ok_iff.1 h
  cases built
  exact ⟨stored, rfl, rfl, rfl, rfl⟩

/-- A state in range owns its packed entries. -/
theorem window_of_inRange (h : ofView? payload v = .ok c) {s : StateId} (inside : v.InRange s) :
    c.window s = F.packing.packState payload v s := by
  obtain ⟨nonneg, below⟩ := inside
  obtain ⟨_, _, _, _, _, numStates, _⟩ := frame_of_ofView h
  have position := View.position?_of_nonneg nonneg
  have lt : s.toInt.toNat < (Store.rowsOf F.packing payload v).length := by
    simp only [Store.rowsOf, List.length_map, View.length_states]
    omega
  unfold window
  rw [Store.window_of_position position (by omega), (store_holds_of_ofView h).windowAt lt]
  simp only [Store.rowsOf, View.states, List.getElem_map, List.getElem_range]
  rw [View.stateAt_toNat nonneg]

theorem window_of_not_inRange {c : Compact F} {s : StateId} (outside : ¬ c.view.InRange s) :
    c.window s = [] := by
  unfold window Store.window
  split
  · rename_i i position
    rw [position?_eq_some_iff] at position
    have past : ¬ i < c.store.numStates := fun below => outside ⟨by omega, by
      change s.toInt < c.store.numStates
      omega⟩
    rw [if_neg past]
  · rfl

theorem bare_view (c : Compact F) : c.view.Bare := by
  intro s outside
  have empty := window_of_not_inRange outside
  constructor
  · change c.final s = Weight.zero
    rw [final, empty]
    rfl
  · change c.arcs s = []
    rw [arcs_eq, empty]
    unfold Packing.arcEntries
    split <;> rfl

end Compact

/-- The entries of a state after a leading one of the reserved label. -/
def arcsAmong (entries : List Arc) : List Arc :=
  if entries.head?.any (·.ilabel == noLabel) then entries.drop 1 else entries

/-- The final weight and the arcs are told apart again, if no arc has the reserved label. -/
theorem arcsAmong_entries {v : View} {s : StateId} (plain : ∀ a ∈ v.arcs s, a.ilabel ≠ noLabel) :
    arcsAmong (v.entries s) = v.arcs s := by
  unfold arcsAmong View.entries
  by_cases final : v.isFinal s = true
  · simp [final, Arc.superfinal]
  · cases arcs : v.arcs s with
    | nil => simp [final]
    | cons a rest =>
      have : a.ilabel ≠ noLabel := plain a (by simp [arcs])
      simp [final, this]

/-- Whatever the labels are, only arcs are shown as arcs. -/
theorem mem_arcs_of_mem_arcsAmong {v : View} {s : StateId} {a : Arc}
    (h : a ∈ arcsAmong (v.entries s)) : a ∈ v.arcs s := by
  unfold arcsAmong View.entries at h
  by_cases final : v.isFinal s = true
  · simpa [final, Arc.superfinal] using h
  · simp only [final, Bool.false_eq_true, if_false, List.nil_append] at h
    split at h
    · exact List.mem_of_mem_drop h
    · exact h

namespace Compact

variable {k : Stock} {algebra : Algebra} {width : OffsetWidth} {payload : k.packing.Payload}
  {v : View} {c : Compact (k.format algebra width)}

theorem startsFinal_map_pack (s : StateId) (entries : List Arc) :
    k.packing.startsFinal payload s (entries.map (k.packing.pack payload s))
      = entries.head?.any (·.ilabel == noLabel) := by
  cases entries with
  | nil => rfl
  | cons a rest =>
    change (k.packing.inputLabel payload s (k.packing.pack payload s a) == noLabel) = _
    rw [Stock.inputLabel_pack]
    rfl

theorem arcEntries_map_pack (s : StateId) (entries : List Arc) :
    k.packing.arcEntries payload s (entries.map (k.packing.pack payload s))
      = (arcsAmong entries).map (k.packing.pack payload s) := by
  unfold Packing.arcEntries arcsAmong
  rw [startsFinal_map_pack]
  split
  · rw [List.map_drop]
  · rfl

/-- The arcs that a packed machine shows. -/
theorem arcs_of_ofView (h : ofView? payload v = .ok c) {s : StateId} (inside : v.InRange s) :
    c.arcs s = (arcsAmong (v.entries s)).map (k.restored s Fields.all) := by
  have same : c.payload = payload := (frame_of_ofView h).1
  rw [arcs_eq, window_of_inRange h inside, same]
  change List.map _ (k.packing.arcEntries payload s ((v.entries s).map (k.packing.pack payload s)))
    = _
  rw [arcEntries_map_pack, List.map_map]
  exact List.map_congr_left fun a _ => Stock.unpack_pack k payload s Fields.all a

/-- The final weights that a packed machine shows. -/
theorem final_of_ofView (h : ofView? payload v = .ok c) {s : StateId} (inside : v.InRange s) :
    c.final s = match (v.entries s).head? with
      | some a => if a.ilabel = noLabel then (k.restored s Fields.inputAndWeight a).weight
          else Weight.zero
      | none => Weight.zero := by
  have same : c.payload = payload := (frame_of_ofView h).1
  rw [final, window_of_inRange h inside, same]
  cases entries : v.entries s with
  | nil => simp [Packing.packState, entries]
  | cons a rest =>
    simp only [Packing.packState, entries, List.map_cons, List.head?_cons]
    change (if (k.packing.unpack payload s (k.packing.pack payload s a) _).ilabel = _
      then (k.packing.unpack payload s (k.packing.pack payload s a) _).weight else _) = _
    rw [Stock.unpack_pack]
    rfl

theorem inRange_of_view (h : ofView? payload v = .ok c) {s : StateId} :
    c.view.InRange s ↔ v.InRange s := by
  have same : c.store.numStates = v.numStates := (frame_of_ofView h).2.2.2.2.2.1
  unfold View.InRange
  change (_ ∧ s.toInt < c.store.numStates) ↔ _
  rw [same]

/-! ## Soundness -/

/-- The entries of a state of a packed string are a single one. -/
theorem length_entries_of_not_keepsTarget (h : ofView? payload v = .ok c)
    (dropped : k.keepsTarget = false) {s : StateId} (inside : v.InRange s) :
    (v.entries s).length = 1 := by
  obtain ⟨_, store, made, _⟩ := ofView?_eq_ok_iff.1 h
  have fits := Store.fits_of_ofView made
  change v.Fits k.packing width at fits
  rw [View.fits_iff_of_fixed (Stock.arity_of_not_keepsTarget dropped)] at fits
  exact fits _ (List.mem_map.2 ⟨s, View.mem_states_of_inRange inside, rfl⟩)

/-- A string shows no arc with the reserved label: such an entry is taken for a final weight. -/
theorem ilabel_ne_of_mem_arcsAmong {entries : List Arc} (single : entries.length = 1) {a : Arc}
    (member : a ∈ arcsAmong entries) : a.ilabel ≠ noLabel := by
  obtain ⟨b, rfl⟩ := List.length_eq_one_iff.1 single
  unfold arcsAmong at member
  by_cases reserved : b.ilabel = noLabel
  · simp [reserved] at member
  · simp only [List.head?_cons, Option.any_some, beq_iff_eq, reserved, if_false] at member
    rw [List.mem_singleton.1 member]
    exact reserved

/-- What a packing demands is true of a sound view that it packs. -/
theorem obeys_of_required (h : ofView? payload v = .ok c) (sound : v.Sound) (bare : v.Bare)
    {t : Trait} {verdict : Bool} (said : Says k.packing.required t verdict) :
    v.Obeys t verdict := by
  have checked : checkSource k.packing v = .ok () := (ofView?_eq_ok_iff.1 h).1
  exact sound.obeys_of_compatible bare (checkSource_eq_ok_iff.1 checked).2 said

theorem costs_weight_restored {s : StateId} {fields : Fields} {a : Arc}
    (free : Machine.costs a.weight = false) :
    Machine.costs (k.restored s fields a).weight = false := by
  have cases_ : (k.restored s fields a).weight = a.weight
      ∨ (k.restored s fields a).weight = Weight.one := by
    change (if _ then _ else _) = _ ∨ (if _ then _ else _) = _
    split
    · exact Or.inl rfl
    · exact Or.inr rfl
  rcases cases_ with kept | filled
  · rw [kept]
    exact free
  · rw [filled]
    exact Machine.costs_one

/-- Whatever is shown as a final weight is one of the weights packed, or free of cost. -/
theorem costs_final_of_ofView (h : ofView? payload v = .ok c) {s : StateId}
    (inside : v.InRange s) (free : Machine.costs (v.final s) = false
      ∧ ∀ a ∈ v.arcs s, Machine.costs a.weight = false) :
    Machine.costs (c.final s) = false := by
  have entry : ∀ a ∈ v.entries s, Machine.costs a.weight = false := by
    intro a member
    unfold View.entries at member
    rcases List.mem_append.1 member with isFinal | isArc
    · split at isFinal
      · rw [List.mem_singleton.1 isFinal]
        exact free.1
      · cases isFinal
    · exact free.2 a isArc
  rw [final_of_ofView h inside]
  split
  · rename_i a first
    have kept := entry a (List.mem_of_head? first)
    split
    · exact costs_weight_restored kept
    · exact Machine.costs_zero
  · exact Machine.costs_zero

/-- Verdicts that packings rely on pass from a view to its packed form. -/
theorem obeys_of_ofView (h : ofView? payload v = .ok c) {t : Trait} {verdict : Bool}
    (obeys : v.Obeys t verdict) : c.view.Obeys t verdict := by
  have arcsShown : ∀ s, ∀ a ∈ c.arcs s, v.InRange s
      ∧ ∃ b ∈ arcsAmong (v.entries s), k.restored s Fields.all b = a := by
    intro s a member
    by_cases inside : v.InRange s
    · rw [arcs_of_ofView h inside] at member
      exact ⟨inside, List.mem_map.1 member⟩
    · have outside : ¬ c.view.InRange s := fun there => inside ((inRange_of_view h).1 there)
      have nothing : c.arcs s = [] := (c.bare_view s outside).2
      rw [nothing] at member
      cases member
  revert obeys
  unfold View.Obeys
  split
  · intro equal s a member
    obtain ⟨_, b, shown, rfl⟩ := arcsShown s a member
    have same := equal s b (mem_arcs_of_mem_arcsAmong shown)
    unfold Stock.restored
    split
    · exact same
    · rfl
  · intro free s
    by_cases inside : v.InRange s
    · refine ⟨costs_final_of_ofView h inside (free s), fun a member => ?_⟩
      obtain ⟨_, b, shown, rfl⟩ := arcsShown s a member
      exact costs_weight_restored ((free s).2 b (mem_arcs_of_mem_arcsAmong shown))
    · have outside : ¬ c.view.InRange s := fun there => inside ((inRange_of_view h).1 there)
      obtain ⟨zero, nothing⟩ := c.bare_view s outside
      rw [zero, nothing]
      exact ⟨Machine.costs_zero, fun _ member => nomatch member⟩
  · intro next s a member
    obtain ⟨inside, b, shown, rfl⟩ := arcsShown s a member
    by_cases kept : k.keepsTarget = true
    · rw [Stock.restored, if_pos kept]
      exact next s b (mem_arcs_of_mem_arcsAmong shown)
    · have single := length_entries_of_not_keepsTarget h (Bool.eq_false_iff.2 kept) inside
      have plain := ilabel_ne_of_mem_arcsAmong single shown
      rw [Stock.restored, if_neg kept]
      exact if_neg plain
  · exact fun _ => trivial

/-- The packed form of a sound view is sound. -/
theorem sound_of_ofView (h : ofView? payload v = .ok c) (sound : v.Sound) (bare : v.Bare) :
    c.view.Sound := by
  intro t verdict said
  have properties : c.properties = declaredBy k.packing v := (frame_of_ofView h).2.1
  change Says c.properties t verdict at said
  rw [properties] at said
  rcases says_or.1 said with said | impossible
  · rcases says_or.1 said with answered | demanded
    · exact obeys_of_ofView h (sound.obeys_of_test bare answered)
    · exact obeys_of_ofView h (obeys_of_required h sound bare demanded)
  · exact absurd impossible (not_says_expanded t verdict)

end Compact
end Transducer
