import Transducer.Label
/-!
# A cache of decoded states

Decoded states by number, in the order in which they were put in. With collection on, the
oldest states are dropped while the accounted size is above the limit and more than one state is
left. Main statements: dropping leaves the newest states, and a state just put in is the newest.
-/
namespace Transducer

/-- When to drop states. -/
structure CacheOptions where
  collect : Bool
  limit : Nat
  deriving DecidableEq, Repr

/-- Decoding is cheap, so hardly anything is kept. -/
def CacheOptions.standard : CacheOptions := ⟨true, 0⟩

/-- A state with its arcs decoded. -/
structure DecodedState where
  final : Weight
  arcs : List Arc
  deriving DecidableEq, Repr

/-- The bytes accounted to a decoded state: a fixed part and sixteen for each arc. -/
def DecodedState.cost (state : DecodedState) : Nat := 24 + 16 * state.arcs.length

structure ArcCache where
  options : CacheOptions
  /-- The cached states, the oldest first. -/
  entries : List (StateId × DecodedState)
  /-- The bytes accounted to them. -/
  size : Nat
  deriving DecidableEq, Repr

namespace ArcCache

def empty (options : CacheOptions) : ArcCache := ⟨options, [], 0⟩

def get? (cache : ArcCache) (s : StateId) : Option DecodedState := cache.entries.lookup s

/-- Drops the oldest entries while the size is above the limit and another entry is left. -/
def evict (limit : Nat) :
    Nat → List (StateId × DecodedState) → List (StateId × DecodedState) × Nat
  | size, oldest :: next :: rest =>
    if limit < size then evict limit (size - oldest.2.cost) (next :: rest)
    else (oldest :: next :: rest, size)
  | size, entries => (entries, size)

/-- Puts a state in as the newest, in the place of an older one of that number. -/
def insert (cache : ArcCache) (s : StateId) (state : DecodedState) : ArcCache :=
  let freed := match cache.get? s with
    | some old => old.cost
    | none => 0
  let entries := (cache.entries.filter fun entry => entry.1 != s) ++ [(s, state)]
  let size := cache.size + state.cost - freed
  if cache.options.collect then
    let kept := evict cache.options.limit size entries
    { cache with entries := kept.1, size := kept.2 }
  else { cache with entries := entries, size := size }

def clear (cache : ArcCache) : ArcCache := { cache with entries := [], size := 0 }

/-- Eviction leaves a suffix. -/
theorem evict_suffix (limit size : Nat) (entries : List (StateId × DecodedState)) :
    (evict limit size entries).1 <:+ entries := by
  fun_induction evict limit size entries with
  | case1 size oldest next rest _ ih => exact ih.trans (List.suffix_cons _ _)
  | case2 => exact List.suffix_refl _
  | case3 => exact List.suffix_refl _

theorem getLast?_evict (limit size : Nat) (entries : List (StateId × DecodedState)) :
    (evict limit size entries).1.getLast? = entries.getLast? := by
  fun_induction evict limit size entries with
  | case1 size oldest next rest _ ih => rw [ih, List.getLast?_cons_cons]
  | case2 => rfl
  | case3 => rfl

/-- A state just put in is the newest one, whatever is dropped. -/
theorem getLast?_insert (cache : ArcCache) (s : StateId) (state : DecodedState) :
    (cache.insert s state).entries.getLast? = some (s, state) := by
  unfold insert
  by_cases collecting : cache.options.collect = true <;> simp [collecting, getLast?_evict]

end ArcCache
end Transducer
