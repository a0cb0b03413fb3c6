import Mathlib.Algebra.Ring.Nat
import Mathlib.Logic.Function.Basic
import Transducer.ArcCache
import Transducer.Proofs.Checked
/-!
# What a cache holds

A cache keeps three things: a table of the states it holds, the order in which they were put in, and
the bytes accounted to them. They are changed one after the other whenever a state is put in,
replaced, dropped or cleared away. Here they are also kept apart (`CacheParts`), with a counter that
must not fall below zero, and a history of changes is recorded beside them: all that was put in
since the cache was last cleared, the newest first. What ties them together is that the cache holds
the end of what the record ranks (`ArcCache.Accounts.after`). Main statement: after every history
the parts are those of one list of states, which says what is held, in which order and at what cost,
and what the next state that is put in drops (`cache_accounts`).
-/
namespace Transducer

open Checked

/-- The bytes accounted to states. -/
def totalCost (entries : List (StateId × DecodedState)) : Nat :=
  (entries.map fun entry => entry.2.cost).sum

/-- Nothing has to be dropped: the limit is kept, or only one state is left. -/
def Settled (limit : Nat) (entries : List (StateId × DecodedState)) : Prop :=
  totalCost entries ≤ limit ∨ entries.length = 1

instance (limit : Nat) (entries : List (StateId × DecodedState)) :
    Decidable (Settled limit entries) := inferInstanceAs (Decidable (_ ∨ _))

/-- A change of a cache. -/
inductive CacheChange where
  | insert (s : StateId) (state : DecodedState)
  | clear

/-- A record of what was put in, the newest first, after one more change. -/
def record (log : List (StateId × DecodedState)) : CacheChange → List (StateId × DecodedState)
  | .insert s state => (s, state) :: log
  | .clear => []

/-- Each state of a record once, with what was last put in for it: the states that were put in
least recently first, and a state that was put in again at its new place. -/
def ranked : List (StateId × DecodedState) → List (StateId × DecodedState)
  | [] => []
  | entry :: older => (ranked older).filter (fun other => other.1 != entry.1) ++ [entry]

/-! ## The parts of a cache -/

/-- A cache as it is kept. -/
structure CacheParts where
  options : CacheOptions
  held : StateId → Option DecodedState
  /-- The numbers of the states, the oldest first. -/
  order : List StateId
  size : Nat

namespace CacheParts

def empty (options : CacheOptions) : CacheParts := ⟨options, fun _ => none, [], 0⟩

/-- Drops the oldest states while the size is above the limit and another state is left. -/
def collect (limit : Nat) (held : StateId → Option DecodedState) (size : Nat) :
    List StateId → Checked ((StateId → Option DecodedState) × List StateId × Nat)
  | victim :: next :: rest =>
    if limit < size then do
      let size ← match held victim with
        | some old => minus size old.cost
        | none => .ok size
      collect limit (Function.update held victim none) size (next :: rest)
    else .ok (held, victim :: next :: rest, size)
  | order => .ok (held, order, size)

/-- The order without a state that is about to be replaced, and the size without its cost. -/
def withdraw (parts : CacheParts) (s : StateId) (size : Nat) : Checked (List StateId × Nat) :=
  match parts.held s with
  | some old => do
    let left ← minus size old.cost
    return (parts.order.filter (· != s), left)
  | none => .ok (parts.order, size)

/-- Adds the cost of a state, takes off what it replaces, and puts its number at the end of the
order. -/
def insert (parts : CacheParts) (s : StateId) (state : DecodedState) : Checked CacheParts := do
  let (order, size) ← parts.withdraw s (parts.size + state.cost)
  let held := Function.update parts.held s (some state)
  if parts.options.collect then
    let (held, order, size) ← collect parts.options.limit held size (order ++ [s])
    return ⟨parts.options, held, order, size⟩
  else return ⟨parts.options, held, order ++ [s], size⟩

def clear (parts : CacheParts) : CacheParts := ⟨parts.options, fun _ => none, [], 0⟩

def after (parts : CacheParts) : CacheChange → Checked CacheParts
  | .insert s state => parts.insert s state
  | .clear => .ok parts.clear

/-- The parts after a history of changes, unless the size falls below zero on the way. -/
def afterAll (parts : CacheParts) (changes : List CacheChange) : Checked CacheParts :=
  changes.foldlM after parts

end CacheParts

/-! ## Looking up numbers -/

section
variable {entries whole : List (StateId × DecodedState)} {s : StateId} {state : DecodedState}

theorem lookup_eq_none_iff_notMem : entries.lookup s = none ↔ s ∉ entries.map (·.1) := by
  simp only [List.lookup_eq_none_iff, bne_iff_ne, List.mem_map, not_exists, not_and]
  constructor
  · intro apart entry member same
    exact apart entry member same.symm
  · intro apart entry member same
    exact apart entry member same.symm

theorem lookup_cons_of_ne {t : StateId} (other : s ≠ t) :
    ((t, state) :: entries).lookup s = entries.lookup s := by
  simp [List.lookup_cons, beq_false_of_ne other]

theorem lookup_filter_of_ne {t : StateId} (other : s ≠ t) :
    (entries.filter fun entry => entry.1 != t).lookup s = entries.lookup s := by
  induction entries with
  | nil => rfl
  | cons entry rest ih =>
    obtain ⟨u, old⟩ := entry
    by_cases left_out : u = t
    · subst left_out
      rw [lookup_cons_of_ne other, List.filter_cons_of_neg (by simp), ih]
    · rw [List.filter_cons_of_pos (by simpa using left_out)]
      by_cases here : s = u
      · subst here
        rw [List.lookup_cons_self, List.lookup_cons_self]
      · rw [lookup_cons_of_ne here, lookup_cons_of_ne here, ih]

theorem lookup_filter_self (entries : List (StateId × DecodedState)) (s : StateId) :
    (entries.filter fun entry => entry.1 != s).lookup s = none := by
  rw [lookup_eq_none_iff_notMem]
  simp

theorem filter_eq_self_of_lookup (absent : entries.lookup s = none) :
    entries.filter (fun entry => entry.1 != s) = entries := by
  rw [List.filter_eq_self]
  intro entry member
  rw [List.lookup_eq_none_iff] at absent
  exact bne_comm.trans (absent entry member)

theorem lookup_of_mem {entry : StateId × DecodedState}
    (distinct : (entries.map (·.1)).Nodup) (member : entry ∈ entries) :
    entries.lookup entry.1 = some entry.2 := by
  obtain ⟨front, back, rfl⟩ := List.append_of_mem member
  rw [List.map_append, List.map_cons, List.nodup_append] at distinct
  refine List.lookup_eq_some_iff.2 ⟨front, back, rfl, fun other earlier => bne_iff_ne.2 ?_⟩
  exact (distinct.2.2 other.1 (List.mem_map_of_mem earlier) entry.1 List.mem_cons_self).symm

/-- Looking up the numbers of entries gives their states. -/
theorem filterMap_lookup
    (found : ∀ entry ∈ entries, whole.lookup entry.1 = some entry.2) :
    (entries.map (·.1)).filterMap (fun s => whole.lookup s) = entries.map (·.2) := by
  induction entries with
  | nil => rfl
  | cons entry rest ih =>
    rw [List.forall_mem_cons] at found
    rw [List.map_cons, List.filterMap_cons, found.1, ih found.2]
    rfl

/-- What is found in the end of a list with distinct numbers is found in the whole list. -/
theorem lookup_of_suffix (distinct : (whole.map (·.1)).Nodup) (suffix : entries <:+ whole)
    (found : entries.lookup s = some state) : whole.lookup s = some state := by
  obtain ⟨front, back, split, _⟩ := List.lookup_eq_some_iff.1 found
  have member : (s, state) ∈ entries := by simp [split]
  exact lookup_of_mem distinct (suffix.subset member)

end

/-! ## Costs -/

section
variable {entries : List (StateId × DecodedState)} {limit size : Nat}

@[simp] theorem totalCost_nil : totalCost [] = 0 := rfl

@[simp] theorem totalCost_cons (entry : StateId × DecodedState)
    (rest : List (StateId × DecodedState)) :
    totalCost (entry :: rest) = entry.2.cost + totalCost rest := by
  simp [totalCost]

@[simp] theorem totalCost_append (entries others : List (StateId × DecodedState)) :
    totalCost (entries ++ others) = totalCost entries + totalCost others := by
  simp [totalCost]

/-- Leaving out the states of one number leaves out what that number accounts for. -/
theorem totalCost_filter (distinct : (entries.map (·.1)).Nodup) (s : StateId) :
    totalCost (entries.filter fun entry => entry.1 != s)
      + (entries.lookup s).elim 0 DecodedState.cost = totalCost entries := by
  induction entries with
  | nil => rfl
  | cons entry rest ih =>
    obtain ⟨t, old⟩ := entry
    rw [List.map_cons, List.nodup_cons] at distinct
    by_cases same : t = s
    · subst same
      have absent : rest.lookup t = none := lookup_eq_none_iff_notMem.2 distinct.1
      simp [filter_eq_self_of_lookup absent, Nat.add_comm]
    · have other : s ≠ t := fun h => same h.symm
      have left := ih distinct.2
      rw [lookup_cons_of_ne other]
      simp only [List.filter_cons, bne_iff_ne, ne_eq, same, not_false_eq_true, if_true,
        totalCost_cons]
      omega

/-- What is left of a size when the first of the states is dropped. -/
theorem totalCost_rest {oldest : StateId × DecodedState} {rest : List (StateId × DecodedState)}
    (account : size = totalCost (oldest :: rest)) : size - oldest.2.cost = totalCost rest := by
  rw [account, totalCost_cons]
  omega

/-! ## Eviction -/

/-- Eviction stops at the latest when there is no second state. -/
theorem nil_or_single_of_few
    (few : ∀ oldest next rest, entries = oldest :: next :: rest → False) :
    entries = [] ∨ ∃ entry, entries = [entry] := by
  cases entries with
  | nil => exact Or.inl rfl
  | cons oldest rest =>
    cases rest with
    | nil => exact Or.inr ⟨oldest, rfl⟩
    | cons next rest => exact absurd rfl (few oldest next rest)

/-- The size that is left is that of the states that are left. -/
theorem size_evict (account : size = totalCost entries) :
    (ArcCache.evict limit size entries).2 = totalCost (ArcCache.evict limit size entries).1 := by
  fun_induction ArcCache.evict limit size entries with
  | case1 size oldest next rest above ih => exact ih (totalCost_rest account)
  | case2 => exact account
  | case3 => exact account

theorem settled_evict (account : size = totalCost entries) :
    Settled limit (ArcCache.evict limit size entries).1 := by
  fun_induction ArcCache.evict limit size entries with
  | case1 size oldest next rest above ih => exact ih (totalCost_rest account)
  | case2 size oldest next rest below => exact Or.inl (account ▸ Nat.not_lt.1 below)
  | case3 size entries few =>
    rcases nil_or_single_of_few few with rfl | ⟨entry, rfl⟩
    · exact Or.inl (Nat.zero_le limit)
    · exact Or.inr rfl

/-- No more is dropped than has to be. -/
theorem longest_evict (account : size = totalCost entries)
    {kept : List (StateId × DecodedState)} (suffix : kept <:+ entries)
    (settled : Settled limit kept) : kept <:+ (ArcCache.evict limit size entries).1 := by
  fun_induction ArcCache.evict limit size entries with
  | case1 size oldest next rest above ih =>
    have proper : kept <:+ next :: rest := by
      rcases List.suffix_cons_iff.1 suffix with rfl | proper
      · rcases settled with low | single
        · omega
        · simp at single
      · exact proper
    exact ih (totalCost_rest account) proper
  | case2 => exact suffix
  | case3 => exact suffix

/-- The loop over table, order and counter does what eviction does, and the counter stays above
zero. -/
theorem collect_eq (distinct : (entries.map (·.1)).Nodup) (account : size = totalCost entries) :
    CacheParts.collect limit (fun t => entries.lookup t) size (entries.map (·.1))
      = .ok (fun t => (ArcCache.evict limit size entries).1.lookup t,
        (ArcCache.evict limit size entries).1.map (·.1),
        (ArcCache.evict limit size entries).2) := by
  fun_induction ArcCache.evict limit size entries with
  | case1 size oldest next rest above ih =>
    obtain ⟨t, old⟩ := oldest
    rw [List.map_cons, List.nodup_cons] at distinct
    have dropped : Function.update (fun u => ((t, old) :: next :: rest).lookup u) t none
        = fun u => (next :: rest).lookup u := by
      funext u
      by_cases same : u = t
      · subst same
        rw [Function.update_self]
        exact (lookup_eq_none_iff_notMem.2 distinct.1).symm
      · rw [Function.update_of_ne same]
        exact lookup_cons_of_ne same
    have enough : old.cost ≤ size := by
      rw [account, totalCost_cons]
      exact Nat.le_add_right _ _
    have left := ih distinct.2 (totalCost_rest account)
    simp only [List.map_cons, CacheParts.collect, if_pos above, List.lookup_cons_self,
      minus_of_le enough, ok_bind]
    rw [dropped]
    exact left
  | case2 size oldest next rest below => simp [CacheParts.collect, below]
  | case3 size entries few =>
    rcases nil_or_single_of_few few with rfl | ⟨entry, rfl⟩ <;> rfl

end

/-! ## Ranking -/

theorem nodup_ranked (log : List (StateId × DecodedState)) : ((ranked log).map (·.1)).Nodup := by
  induction log with
  | nil => exact List.nodup_nil
  | cons entry older ih =>
    rw [ranked, List.map_append, List.nodup_append]
    refine ⟨ih.sublist (List.filter_sublist.map _), by simp, ?_⟩
    intro s left t right
    obtain ⟨other, member, rfl⟩ := List.mem_map.1 left
    rw [List.mem_singleton.1 right]
    exact bne_iff_ne.1 (List.mem_filter.1 member).2

/-- What was last put in for a state is what its rank shows. -/
theorem lookup_ranked (log : List (StateId × DecodedState)) (s : StateId) :
    (ranked log).lookup s = log.lookup s := by
  induction log with
  | nil => rfl
  | cons entry older ih =>
    obtain ⟨t, state⟩ := entry
    rw [ranked, List.lookup_append]
    by_cases same : s = t
    · subst same
      rw [lookup_filter_self, List.lookup_cons_self, List.lookup_cons_self]
      rfl
    · have apart : ((ranked older).filter fun other => other.1 != t).lookup s
          = (ranked older).lookup s := lookup_filter_of_ne same
      rw [apart, ih, lookup_cons_of_ne same, lookup_cons_of_ne same]
      exact Option.or_none

/-! ## Histories -/

namespace ArcCache

variable {cache : ArcCache} {log : List (StateId × DecodedState)} {s : StateId}
  {state : DecodedState}

/-- The parts that a cache is kept in. -/
def parts (cache : ArcCache) : CacheParts :=
  ⟨cache.options, cache.get?, cache.entries.map (·.1), cache.size⟩

def after (cache : ArcCache) : CacheChange → ArcCache
  | .insert s state => cache.insert s state
  | .clear => cache.clear

def afterAll (cache : ArcCache) (changes : List CacheChange) : ArcCache := changes.foldl after cache

/-- The states just before any is dropped, with a state put in as the newest. -/
def put (cache : ArcCache) (s : StateId) (state : DecodedState) : List (StateId × DecodedState) :=
  (cache.entries.filter fun entry => entry.1 != s) ++ [(s, state)]

/-- The cache holds the end of what a record ranks, and all of it if nothing is dropped; and the
size is the cost of what it holds. -/
structure Accounts (cache : ArcCache) (log : List (StateId × DecodedState)) : Prop where
  suffix : cache.entries <:+ ranked log
  size : cache.size = totalCost cache.entries
  newest : cache.entries.getLast? = log.head?
  complete : cache.options.collect = false → cache.entries = ranked log

theorem accounts_empty (options : CacheOptions) : (empty options).Accounts [] :=
  ⟨List.suffix_refl _, rfl, rfl, fun _ => rfl⟩

theorem Accounts.distinct (accounts : cache.Accounts log) :
    (cache.entries.map (·.1)).Nodup :=
  (nodup_ranked log).sublist (accounts.suffix.sublist.map _)

/-- What is taken off for a state that is replaced has been accounted for. -/
theorem Accounts.totalCost_put (accounts : cache.Accounts log) (s : StateId)
    (state : DecodedState) : totalCost (cache.put s state)
      + (cache.get? s).elim 0 DecodedState.cost = cache.size + state.cost := by
  have left := totalCost_filter accounts.distinct s
  unfold put get?
  simp only [totalCost_append, totalCost_cons, totalCost_nil, accounts.size]
  omega

/-- Putting a state in, with the size as the cost of what is there. -/
theorem Accounts.insert_eq (accounts : cache.Accounts log) (s : StateId) (state : DecodedState) :
    cache.insert s state = if cache.options.collect then
        { cache with
          entries := (evict cache.options.limit (totalCost (cache.put s state))
            (cache.put s state)).1
          size := (evict cache.options.limit (totalCost (cache.put s state))
            (cache.put s state)).2 }
      else { cache with entries := cache.put s state, size := totalCost (cache.put s state) } := by
  have account := accounts.totalCost_put s state
  have size : cache.size + state.cost - (match cache.get? s with
      | some old => old.cost
      | none => 0) = totalCost (cache.put s state) := by
    cases found : cache.get? s with
    | some old =>
      rw [found, Option.elim_some] at account
      change cache.size + state.cost - old.cost = _
      omega
    | none =>
      rw [found, Option.elim_none] at account
      exact account.symm
  unfold insert
  rw [← size]
  rfl

theorem put_suffix (suffix : cache.entries <:+ ranked log) (s : StateId) (state : DecodedState) :
    cache.put s state <:+ ranked ((s, state) :: log) := by
  obtain ⟨front, older⟩ := suffix.filter fun entry => entry.1 != s
  refine ⟨front, ?_⟩
  rw [put, ← List.append_assoc, older, ranked]

theorem Accounts.insert (accounts : cache.Accounts log) (s : StateId) (state : DecodedState) :
    (cache.insert s state).Accounts ((s, state) :: log) := by
  have newest := getLast?_insert cache s state
  have below := put_suffix accounts.suffix s state
  rw [accounts.insert_eq] at newest ⊢
  by_cases collecting : cache.options.collect = true
  · rw [if_pos collecting] at newest ⊢
    refine ⟨(evict_suffix _ _ _).trans below, size_evict rfl, newest, fun off => ?_⟩
    rw [collecting] at off
    cases off
  · rw [if_neg collecting] at newest ⊢
    refine ⟨below, rfl, newest, fun off => ?_⟩
    rw [put, accounts.complete off, ranked]

theorem accounts_clear (cache : ArcCache) : cache.clear.Accounts [] :=
  ⟨List.suffix_refl _, rfl, rfl, fun _ => rfl⟩

/-- Every change keeps the account. -/
theorem Accounts.after (accounts : cache.Accounts log) (change : CacheChange) :
    (cache.after change).Accounts (record log change) := by
  cases change with
  | insert s state => exact accounts.insert s state
  | clear => exact accounts_clear cache

theorem lookup_put (cache : ArcCache) (s : StateId) (state : DecodedState) :
    (fun t => (cache.put s state).lookup t) = Function.update cache.get? s (some state) := by
  funext t
  unfold put
  rw [List.lookup_append]
  by_cases same : t = s
  · subst same
    rw [lookup_filter_self, Function.update_self, List.lookup_cons_self]
    rfl
  · rw [Function.update_of_ne same, lookup_filter_of_ne same, lookup_cons_of_ne same]
    exact Option.or_none

theorem map_put (cache : ArcCache) (s : StateId) (state : DecodedState) :
    (cache.put s state).map (·.1) = (cache.entries.map (·.1)).filter (· != s) ++ [s] := by
  rw [put, List.map_append, List.filter_map]
  rfl

/-- What is taken off the size is in it. -/
theorem Accounts.withdraw_eq (accounts : cache.Accounts log) (s : StateId)
    (state : DecodedState) : cache.parts.withdraw s (cache.size + state.cost)
      = .ok ((cache.entries.map (·.1)).filter (· != s), totalCost (cache.put s state)) := by
  have account := accounts.totalCost_put s state
  have held : cache.parts.held s = cache.get? s := rfl
  unfold CacheParts.withdraw
  rw [held]
  cases found : cache.get? s with
  | some old =>
    rw [found, Option.elim_some] at account
    have enough : old.cost ≤ cache.size + state.cost := by omega
    have left : cache.size + state.cost - old.cost = totalCost (cache.put s state) := by omega
    simp only [minus_of_le enough, ok_bind, left]
    rfl
  | none =>
    rw [found, Option.elim_none, Nat.add_zero] at account
    have whole : (cache.entries.map (·.1)).filter (· != s) = cache.entries.map (·.1) := by
      rw [List.filter_map]
      exact congrArg _ (filter_eq_self_of_lookup found)
    simp only [account, whole]
    rfl

/-- Table, order and counter change together. -/
theorem Accounts.parts_insert (accounts : cache.Accounts log) (s : StateId)
    (state : DecodedState) :
    cache.parts.insert s state = .ok (cache.insert s state).parts := by
  have distinct : ((cache.put s state).map (·.1)).Nodup :=
    (nodup_ranked _).sublist ((put_suffix accounts.suffix s state).sublist.map _)
  have size : cache.parts.size = cache.size := rfl
  have options : cache.parts.options = cache.options := rfl
  have held : cache.parts.held = cache.get? := rfl
  unfold CacheParts.insert
  rw [size, options, held, accounts.withdraw_eq, accounts.insert_eq, ok_bind, ← lookup_put]
  simp only
  rw [← map_put]
  by_cases collecting : cache.options.collect = true
  · rw [if_pos collecting, if_pos collecting, collect_eq distinct rfl]
    rfl
  · rw [if_neg collecting, if_neg collecting]
    rfl

theorem Accounts.parts_after (accounts : cache.Accounts log) (change : CacheChange) :
    cache.parts.after change = .ok (cache.after change).parts := by
  cases change with
  | insert s state => exact accounts.parts_insert s state
  | clear => rfl

/-- By induction on the changes: the account at each step says that the parts take the next one. -/
theorem Accounts.afterAll (accounts : cache.Accounts log) (changes : List CacheChange) :
    (cache.afterAll changes).Accounts (changes.foldl record log)
      ∧ CacheParts.afterAll cache.parts changes = .ok (cache.afterAll changes).parts := by
  induction changes generalizing cache log with
  | nil => exact ⟨accounts, rfl⟩
  | cons change changes ih =>
    obtain ⟨later, parts⟩ := ih (accounts.after change)
    refine ⟨later, ?_⟩
    unfold CacheParts.afterAll
    rw [List.foldlM_cons, accounts.parts_after change, ok_bind]
    exact parts

theorem options_after (cache : ArcCache) (change : CacheChange) :
    (cache.after change).options = cache.options := by
  cases change with
  | insert s state =>
    change (cache.insert s state).options = _
    unfold ArcCache.insert
    by_cases collecting : cache.options.collect = true <;> simp [collecting]
  | clear => rfl

theorem options_afterAll (cache : ArcCache) (changes : List CacheChange) :
    (cache.afterAll changes).options = cache.options := by
  induction changes generalizing cache with
  | nil => rfl
  | cons change changes ih => exact (ih (cache.after change)).trans (options_after cache change)

/-! ## What is held and what is dropped -/

/-- What a cache holds, by the record of what was put in. -/
structure Keeps (cache : ArcCache) (log : List (StateId × DecodedState)) : Prop where
  /-- Each state is in the order once. -/
  distinct : cache.parts.order.Nodup
  /-- The states in the order are those in the table. -/
  held : ∀ s, s ∈ cache.parts.order ↔ (cache.parts.held s).isSome
  size : cache.parts.size
    = ((cache.parts.order.filterMap cache.parts.held).map DecodedState.cost).sum
  /-- What is held for a state is what was last put in for it. -/
  latest : ∀ s state, cache.get? s = some state → log.lookup s = some state
  /-- The state put in last is held. -/
  newest : ∀ entry ∈ log.head?, cache.get? entry.1 = some entry.2
  /-- The states stand in the order in which they were last put in. -/
  inOrder : cache.entries <:+ ranked log
  /-- Without collection everything is held. -/
  complete : cache.options.collect = false → ∀ s, cache.get? s = log.lookup s

/-- What putting a state in leaves: the longest end of the states there that need not be dropped. -/
structure Trims (cache : ArcCache) (s : StateId) (state : DecodedState) : Prop where
  settled : (cache.insert s state).size ≤ cache.options.limit
    ∨ (cache.insert s state).entries.length = 1
  survivors : (cache.insert s state).entries <:+ cache.put s state
  longest : ∀ kept, kept <:+ cache.put s state → Settled cache.options.limit kept →
    kept <:+ (cache.insert s state).entries

theorem Accounts.keeps (accounts : cache.Accounts log) : cache.Keeps log where
  distinct := accounts.distinct
  held s := by
    have absent : cache.entries.lookup s = none ↔ s ∉ cache.entries.map (·.1) :=
      lookup_eq_none_iff_notMem
    change s ∈ cache.entries.map (·.1) ↔ (cache.entries.lookup s).isSome
    rw [Option.isSome_iff_ne_none, ne_eq, absent, not_not]
  size := by
    change cache.size = (((cache.entries.map (·.1)).filterMap
      fun s => cache.entries.lookup s).map DecodedState.cost).sum
    rw [filterMap_lookup fun entry member => lookup_of_mem accounts.distinct member,
      List.map_map, accounts.size]
    rfl
  latest s state found := by
    rw [← lookup_ranked]
    exact lookup_of_suffix (nodup_ranked log) accounts.suffix found
  newest entry member := by
    have last : cache.entries.getLast? = some entry := accounts.newest.trans member
    exact lookup_of_mem accounts.distinct (List.mem_of_getLast? last)
  inOrder := accounts.suffix
  complete off s := by
    unfold get?
    rw [accounts.complete off, lookup_ranked]

theorem Accounts.trims (accounts : cache.Accounts log) (collecting : cache.options.collect = true)
    (s : StateId) (state : DecodedState) : cache.Trims s state := by
  have entries : (cache.insert s state).entries
      = (evict cache.options.limit (totalCost (cache.put s state)) (cache.put s state)).1 := by
    rw [accounts.insert_eq, if_pos collecting]
  refine ⟨?_, ?_, fun kept suffix settled => ?_⟩
  · rw [(accounts.insert s state).size, entries]
    exact settled_evict rfl
  · rw [entries]
    exact evict_suffix _ _ _
  · rw [entries]
    exact longest_evict rfl suffix settled

end ArcCache

/-- After every history of insertions and clearings, under every choice of options: table, order and
size of a cache are those of one list of states, and the size never falls below zero on the way;
each state that is held is in the order once, with what was last put in for it, and the size is what
they account for; the state put in last is held, and all of them if nothing is collected. With
collection on, the next state that is put in leaves the longest end of the states there, in the
order in which they were last put in, that is within the limit or a single state. -/
theorem cache_accounts (options : CacheOptions) (changes : List CacheChange) :
    CacheParts.afterAll (CacheParts.empty options) changes
        = .ok ((ArcCache.empty options).afterAll changes).parts
      ∧ ((ArcCache.empty options).afterAll changes).Keeps (changes.foldl record [])
      ∧ (options.collect = true → ∀ s state,
        ((ArcCache.empty options).afterAll changes).Trims s state) := by
  obtain ⟨accounts, parts⟩ := (ArcCache.accounts_empty options).afterAll changes
  have same := ArcCache.options_afterAll (ArcCache.empty options) changes
  refine ⟨parts, accounts.keeps, fun collecting s state => accounts.trims ?_ s state⟩
  rw [same]
  exact collecting

/-- A state that is put in again stands behind the others, so that it is not the next to go. -/
example : ((ArcCache.empty ⟨true, 80⟩).afterAll
    [.insert 1 ⟨Weight.zero, []⟩, .insert 2 ⟨Weight.zero, [⟨1, 1, Weight.one, 1⟩]⟩,
      .insert 1 ⟨Weight.one, []⟩, .insert 3 ⟨Weight.one, []⟩]).parts.order = [1, 3] := by
  decide

end Transducer
