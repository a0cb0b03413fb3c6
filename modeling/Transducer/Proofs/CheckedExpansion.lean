import Transducer.Proofs.CheckedQueries
import Transducer.Proofs.ObtainedMachines
/-!
# Expansions with every step checked

Expanding a state unpacks all its entries, makes room for its arcs and accounts for it in the cache.
A cache as it comes with a machine keeps the newest state only (`ArcCache.Slim`), so that what is
accounted for never exceeds the cost of two states. Main statement: of a machine whose elements fit
into memory once they are unpacked, any number of expansions, of any states in any order, meets no
trap (`Compact.Queryable.expand_eq`).
-/
namespace Transducer

open Checked

/-- `cost`, multiplying and adding in words. -/
def DecodedState.checkedCost (state : DecodedState) : Checked Nat := do
  let arcs ← word (16 * state.arcs.length)
  word (24 + arcs)

theorem DecodedState.checkedCost_eq {state : DecodedState} (few : state.cost < wordLimit) :
    state.checkedCost = .ok state.cost := by
  unfold cost at few
  unfold checkedCost cost
  rw [word_of_lt (by omega), ok_bind, word_of_lt few]

namespace ArcCache

/-- `evict`, taking the cost of each state that is dropped off the size. -/
def checkedEvict (limit : Nat) :
    Nat → List (StateId × DecodedState) → Checked (List (StateId × DecodedState) × Nat)
  | size, oldest :: next :: rest =>
    if limit < size then do
      let left ← minus size (← oldest.2.checkedCost)
      checkedEvict limit left (next :: rest)
    else return (oldest :: next :: rest, size)
  | size, entries => return (entries, size)

/-- `insert`, keeping the size in a word. -/
def checkedInsert (cache : ArcCache) (s : StateId) (state : DecodedState) : Checked ArcCache := do
  let size ← word (cache.size + (← state.checkedCost))
  let size ← match cache.get? s with
    | some old => minus size (← old.checkedCost)
    | none => .ok size
  let entries := (cache.entries.filter fun entry => entry.1 != s) ++ [(s, state)]
  if cache.options.collect then
    let kept ← checkedEvict cache.options.limit size entries
    return { cache with entries := kept.1, size := kept.2 }
  else return { cache with entries := entries, size := size }

/-- At most one state is kept, and its cost, which is bounded, is the size. -/
structure Slim (cache : ArcCache) (bound : Nat) : Prop where
  options : cache.options = CacheOptions.standard
  held : cache.entries = [] ∧ cache.size = 0
    ∨ ∃ s state, cache.entries = [(s, state)] ∧ cache.size = state.cost ∧ state.cost ≤ bound

theorem slim_empty (bound : Nat) : (empty CacheOptions.standard).Slim bound :=
  ⟨rfl, Or.inl ⟨rfl, rfl⟩⟩

variable {cache : ArcCache} {bound : Nat} {s : StateId} {state : DecodedState}

/-- A state that is put in takes the place of the one that was kept. -/
theorem Slim.insert_eq (slim : cache.Slim bound) (new : cache.get? s = none) :
    cache.insert s state = ⟨CacheOptions.standard, [(s, state)], state.cost⟩ := by
  obtain ⟨options, held⟩ := slim
  unfold ArcCache.insert
  rw [new, options]
  rcases held with ⟨entries, size⟩ | ⟨t, old, entries, size, _⟩
  · simp [entries, size, CacheOptions.standard, evict]
  · have other : t ≠ s := by
      rintro rfl
      simp [get?, entries] at new
    have some_ : 0 < old.cost + state.cost := by
      unfold DecodedState.cost
      omega
    simp only [entries, size, CacheOptions.standard, List.filter_cons, bne_iff_ne, ne_eq, other,
      not_false_eq_true, if_true, List.filter_nil, List.singleton_append, evict, Nat.sub_zero,
      some_, Nat.add_sub_cancel_left]

theorem Slim.insert (slim : cache.Slim bound) (new : cache.get? s = none)
    (small : state.cost ≤ bound) : (cache.insert s state).Slim bound := by
  rw [slim.insert_eq new]
  exact ⟨rfl, Or.inr ⟨s, state, rfl, rfl, small⟩⟩

/-- The size stays in a word while it accounts for two states. -/
theorem Slim.checkedInsert_eq (slim : cache.Slim bound) (new : cache.get? s = none)
    (small : state.cost ≤ bound) (room : 2 * bound < wordLimit) :
    cache.checkedInsert s state = .ok (cache.insert s state) := by
  have cost : state.checkedCost = .ok state.cost := DecodedState.checkedCost_eq (by omega)
  rw [slim.insert_eq new]
  obtain ⟨options, held⟩ := slim
  unfold ArcCache.checkedInsert
  rw [cost, ok_bind, new, options]
  rcases held with ⟨entries, size⟩ | ⟨t, old, entries, size, old_small⟩
  · rw [size, Nat.zero_add, word_of_lt (by omega)]
    simp [entries, CacheOptions.standard, checkedEvict]
  · have other : t ≠ s := by
      rintro rfl
      simp [get?, entries] at new
    have some_ : 0 < old.cost + state.cost := by
      unfold DecodedState.cost
      omega
    have dropped : old.checkedCost = .ok old.cost := DecodedState.checkedCost_eq (by omega)
    rw [size, word_of_lt (by omega)]
    simp only [entries, CacheOptions.standard, List.filter_cons, bne_iff_ne, ne_eq, other,
      not_false_eq_true, if_true, List.filter_nil, List.singleton_append, checkedEvict,
      some_, ok_bind, dropped, minus_of_le (Nat.le_add_right _ _), Nat.add_sub_cancel_left,
      pure_eq_ok]

end ArcCache

namespace Compact

variable {F : Format} {c : Compact F} {rows : List (List F.packing.Element)}
  {unpack : StateId → F.packing.Element → Fields → Checked Arc}

section
variable (unpack)

/-- `decode`, with room for as many arcs as there are entries. -/
def checkedDecode (c : Compact F) (s : StateId) : Checked DecodedState := do
  let window ← c.store.checkedWindow s
  let _ ← array (16 * window.length)
  window.foldlM (fun state e => do
    let arc ← unpack s e Fields.all
    return if arc.ilabel = noLabel then { state with final := arc.weight }
      else { state with arcs := state.arcs ++ [arc] }) ⟨Weight.zero, []⟩

def checkedExpand (c : Compact F) (s : StateId) : Checked (DecodedState × Compact F) :=
  match c.cache.get? s with
  | some state => return (state, c)
  | none => do
    let state ← checkedDecode unpack c s
    return (state, { c with cache := ← c.cache.checkedInsert s state })

end

/-- The machine after expansions of states, one after the other. -/
def expandAll (c : Compact F) (states : List StateId) : Compact F :=
  states.foldl (fun c s => (c.expand s).2) c

/-- Decodes one more entry of a state. -/
def decodeEntry (payload : F.packing.Payload) (s : StateId) (state : DecodedState)
    (e : F.packing.Element) : DecodedState :=
  let arc := F.packing.unpack payload s e Fields.all
  if arc.ilabel = noLabel then { state with final := arc.weight }
  else { state with arcs := state.arcs ++ [arc] }

theorem length_decodeEntry_le (payload : F.packing.Payload) (s : StateId) (state : DecodedState)
    (e : F.packing.Element) :
    (decodeEntry payload s state e).arcs.length ≤ state.arcs.length + 1 := by
  unfold decodeEntry
  simp only
  split
  · exact Nat.le_succ _
  · simp only [List.length_append, List.length_singleton, Nat.le_refl]

theorem length_foldl_decodeEntry_le (payload : F.packing.Payload) (s : StateId)
    (window : List F.packing.Element) (state : DecodedState) :
    (window.foldl (decodeEntry payload s) state).arcs.length
      ≤ state.arcs.length + window.length := by
  induction window generalizing state with
  | nil => exact Nat.le_refl _
  | cons e rest ih =>
    have step := length_decodeEntry_le payload s state e
    have rest_le := ih (decodeEntry payload s state e)
    rw [List.foldl_cons, List.length_cons]
    omega

theorem cost_decode_le (holds : c.store.Holds rows) (s : StateId) :
    (c.decode s).cost ≤ 24 + 16 * c.store.numElements := by
  have arcs := length_foldl_decodeEntry_le c.payload s (c.window s) ⟨Weight.zero, []⟩
  have window := length_window_le holds s
  change (c.decode s).arcs.length ≤ 0 + _ at arcs
  unfold DecodedState.cost
  omega

namespace Queryable

variable (queryable : c.Queryable rows unpack)
include queryable

theorem decode_eq (room : 24 + 16 * c.store.numElements < arrayLimit) (s : StateId) :
    checkedDecode unpack c s = .ok (c.decode s) := by
  have arcs : 16 * (c.window s).length < arrayLimit := by
    have window := length_window_le queryable.holds s
    omega
  unfold checkedDecode
  rw [queryable.window_eq s, ok_bind, array_of_lt arcs, ok_bind]
  apply foldlM_of_forall
  intro state e member
  rw [queryable.unpacks s e member]
  rfl

/-- Expanding changes the cache only, which stays slim. -/
theorem expand (slim : c.cache.Slim (24 + 16 * c.store.numElements)) (s : StateId) :
    (c.expand s).2.Queryable rows unpack
      ∧ (c.expand s).2.cache.Slim (24 + 16 * (c.expand s).2.store.numElements) := by
  unfold Compact.expand
  cases cached : c.cache.get? s with
  | some state => exact ⟨queryable, slim⟩
  | none =>
    refine ⟨⟨queryable.holds, queryable.small, queryable.few, queryable.unpacks⟩, ?_⟩
    exact slim.insert cached (cost_decode_le queryable.holds s)

theorem expandAll (slim : c.cache.Slim (24 + 16 * c.store.numElements)) (states : List StateId) :
    (c.expandAll states).Queryable rows unpack
      ∧ (c.expandAll states).cache.Slim (24 + 16 * (c.expandAll states).store.numElements)
      ∧ (c.expandAll states).store = c.store := by
  induction states generalizing c with
  | nil => exact ⟨queryable, slim, rfl⟩
  | cons s states ih =>
    obtain ⟨next, held⟩ := queryable.expand slim s
    obtain ⟨last, kept, same⟩ := ih next held
    exact ⟨last, kept, same.trans (store_expand c s)⟩

theorem expand_eq (slim : c.cache.Slim (24 + 16 * c.store.numElements))
    (room : 24 + 16 * c.store.numElements < arrayLimit) (s : StateId) :
    checkedExpand unpack c s = .ok (c.expand s) := by
  unfold checkedExpand Compact.expand
  cases cached : c.cache.get? s with
  | some state => rfl
  | none =>
    have words : 2 * (24 + 16 * c.store.numElements) < wordLimit := by
      unfold arrayLimit at room
      unfold wordLimit
      omega
    simp only [queryable.decode_eq room s, ok_bind,
      slim.checkedInsert_eq cached (cost_decode_le queryable.holds s) words]
    rfl

end Queryable

end Compact
end Transducer
