import Mathlib.Data.List.Nodup
import Mathlib.Logic.Function.Basic
import Transducer.Proofs.CheckedReading
import Transducer.Proofs.TableRoundTrip
/-!
# Symbols and keys

A symbol table is kept in five parts: the symbols and the keys in the order in which they were
added, where to find the key of a symbol and the place of a key, and the next available key. All of
them are changed whenever an entry is added, by a caller or by the reader. Here they are also kept
apart (`TableParts`), with the place of a key checked against the symbols that there are and with
the next key checked against the largest one. One step keeps the parts in step with the list of
entries (`InStep.put`), whether or not the key is new. Main statement: however a table begins, as
long as no new symbol is put under a key that has one, symbols and keys determine each other just as
the entries say, the next available key is new, and what is there stays
(`symbols_correspond_to_keys`).
-/
namespace Transducer

open Checked

/-! ## The parts of a table -/

/-- A symbol table as it is kept. -/
structure TableParts where
  name : String
  symbols : List String
  keys : List Int64
  keyOf : String → Option Int64
  /-- The place of the symbol that a key was last given to. -/
  indexOf : Int64 → Option Nat
  available : Int64

namespace TableParts

def empty (name : String) : TableParts := ⟨name, [], [], fun _ => none, fun _ => none, 0⟩

/-- The entries as they are listed. -/
def entries (parts : TableParts) : List (String × Int64) := parts.symbols.zip parts.keys

def findKey? (parts : TableParts) (symbol : String) : Option Int64 := parts.keyOf symbol

def findSymbol? (parts : TableParts) (key : Int64) : Checked (Option String) :=
  match parts.indexOf key with
  | some index => do return some (← lookup parts.symbols index)
  | none => .ok none

/-- The next available key once a key is taken; there is none above the largest. -/
def nextKey (available key : Int64) : Checked Int64 :=
  if available ≤ key then
    if key = Int64.maxValue then .error .lastKey else .ok (key + 1)
  else .ok available

def put (parts : TableParts) (symbol : String) (key : Int64) : Checked TableParts := do
  let available ← nextKey parts.available key
  return { parts with
    indexOf := Function.update parts.indexOf key (some parts.symbols.length)
    keyOf := Function.update parts.keyOf symbol (some key)
    symbols := parts.symbols ++ [symbol]
    keys := parts.keys ++ [key]
    available := available }

def addWithKey (parts : TableParts) (symbol : String) (key : Int64) :
    Checked (Int64 × TableParts) :=
  match parts.keyOf symbol with
  | some existing => .ok (existing, parts)
  | none => do return (key, ← parts.put symbol key)

def add (parts : TableParts) (symbol : String) : Checked (Int64 × TableParts) :=
  parts.addWithKey symbol parts.available

def after (parts : TableParts) (addition : SymbolTable.Addition) : Checked TableParts := do
  let (_, parts) ← match addition.key with
    | some key => parts.addWithKey addition.symbol key
    | none => parts.add addition.symbol
  return parts

/-- The parts after some calls that add symbols, unless one of them traps. -/
def afterAll (parts : TableParts) (additions : List SymbolTable.Addition) : Checked TableParts :=
  additions.foldlM after parts

/-- A reading that takes nothing and may trap. -/
def step (next : Checked TableParts) : CheckedReading TableParts := fun source =>
  next.map fun parts => (.ok parts, source)

def readEntries : Nat → TableParts → CheckedReading TableParts
  | 0, parts => pure parts
  | count + 1, parts => do
    let symbol ← CheckedReading.free Reading.text
    let key ← CheckedReading.free (Reading.value Layout.int64)
    CheckedReading.free (Reading.require
      ((parts.keyOf symbol).isNone && (parts.indexOf key).isNone)
      (.badSymbols (.duplicate symbol key)))
    readEntries count (← step (parts.put symbol key))

def read : CheckedReading TableParts := do
  let found ← CheckedReading.free (Reading.value Layout.int32)
  CheckedReading.free
    (Reading.require (found == SymbolTable.magic) (.badSymbols (.magic found)))
  let name ← CheckedReading.free Reading.text
  let available ← CheckedReading.free (Reading.value Layout.int64)
  let count ← CheckedReading.free (Reading.value Layout.int64)
  CheckedReading.free (Reading.require (0 ≤ count) (.badSymbols (.negativeCount count)))
  let parts ← readEntries count.toInt.toNat (empty name)
  return { parts with available := max parts.available available }

end TableParts

/-! ## Parts in step -/

open SymbolTable

/-- The parts are those of a table, and looking up in them gives what the table gives. -/
structure TableParts.InStep (parts : TableParts) (table : SymbolTable) : Prop where
  name : parts.name = table.name
  symbols : parts.symbols = table.symbols
  keys : parts.keys = table.keys
  entries : parts.entries = table.entries
  findKey : ∀ symbol, parts.findKey? symbol = table.findKey? symbol
  findSymbol : ∀ key, parts.findSymbol? key = .ok (table.findSymbol? key)
  available : parts.available = table.availableKey

namespace SymbolTable

variable {table : SymbolTable} {symbol : String} {key : Int64}

theorem zip_symbols_keys (table : SymbolTable) :
    table.symbols.zip table.keys = table.entries := by
  unfold symbols keys
  rw [List.zip_map', List.map_id']

theorem findKey?_push_self (new : symbol ∉ table.symbols) (key : Int64) :
    (table.push symbol key).findKey? symbol = some key := by
  have none_before := findKey?_eq_none_iff.2 new
  unfold findKey? at none_before ⊢
  rw [Option.map_eq_none_iff] at none_before
  simp [push, List.find?_append, none_before]

theorem findKey?_push_of_ne {other : String} (apart : other ≠ symbol) (key : Int64) :
    (table.push symbol key).findKey? other = table.findKey? other := by
  have different : (symbol == other) = false := beq_false_of_ne apart.symm
  simp [findKey?, push, List.find?_append, different]

theorem findSymbol?_push_self (table : SymbolTable) (symbol : String) (key : Int64) :
    (table.push symbol key).findSymbol? key = some symbol := by
  simp [findSymbol?, push]

theorem findSymbol?_push_of_ne {other : Int64} (apart : other ≠ key) (symbol : String) :
    (table.push symbol key).findSymbol? other = table.findSymbol? other := by
  have different : (key == other) = false := beq_false_of_ne apart.symm
  simp [findSymbol?, push, different]

end SymbolTable

namespace TableParts

variable {parts : TableParts} {table : SymbolTable} {symbol : String} {key : Int64}

theorem inStep_empty (name : String) : (empty name).InStep (SymbolTable.empty name) :=
  ⟨rfl, rfl, rfl, rfl, fun _ => rfl, fun _ => rfl, rfl⟩

theorem nextKey_of_lt (available : Int64) (room : key < Int64.maxValue) :
    nextKey available key = .ok (if available ≤ key then key + 1 else available) := by
  have other : key ≠ Int64.maxValue := fun last => Int64.lt_irrefl (last ▸ room)
  unfold nextKey
  rw [if_neg other]
  split <;> rfl

/-- A key has a place exactly if it has a symbol. -/
theorem InStep.isNone_indexOf (inStep : parts.InStep table) (key : Int64) :
    (parts.indexOf key).isNone = (table.findSymbol? key).isNone := by
  have found := inStep.findSymbol key
  unfold findSymbol? at found
  cases place : parts.indexOf key with
  | none =>
    rw [place] at found
    rw [← Except.ok.inj found]
    rfl
  | some index =>
    rw [place] at found
    cases symbol : lookup parts.symbols index with
    | error trap =>
      simp only [symbol] at found
      cases found
    | ok symbol =>
      simp only [symbol] at found
      rw [← Except.ok.inj found]
      rfl

/-- Places that are there stay the places of the same symbols. -/
theorem InStep.findSymbol_append (inStep : parts.InStep table) {index : Nat}
    (place : parts.indexOf key = some index) (symbol : String) :
    lookup (parts.symbols ++ [symbol]) index = lookup parts.symbols index := by
  have found := inStep.findSymbol key
  unfold findSymbol? at found
  rw [place] at found
  cases here : lookup parts.symbols index with
  | error trap =>
    simp only [here] at found
    cases found
  | ok existing =>
    have there := getElem?_of_lookup here
    have inside := (List.getElem?_eq_some_iff.1 there).1
    exact lookup_of_getElem? ((List.getElem?_append_left inside).trans there)

/-- One entry more, under whatever key that leaves room for a next one. -/
theorem InStep.put (inStep : parts.InStep table) (new : symbol ∉ table.symbols)
    (room : key < Int64.maxValue) :
    ∃ after, parts.put symbol key = .ok after ∧ after.InStep (table.push symbol key) := by
  unfold TableParts.put
  rw [nextKey_of_lt _ room, ok_bind]
  have symbols : parts.symbols ++ [symbol] = (table.push symbol key).symbols := by
    rw [symbols_push, inStep.symbols]
  have keys : parts.keys ++ [key] = (table.push symbol key).keys := by
    rw [keys_push, inStep.keys]
  refine ⟨_, rfl, inStep.name, symbols, keys, ?_, ?_, ?_, ?_⟩
  · rw [← zip_symbols_keys, ← symbols, ← keys]
    rfl
  · intro other
    change Function.update parts.keyOf symbol (some key) other = _
    by_cases same : other = symbol
    · subst same
      rw [Function.update_self, findKey?_push_self new]
    · rw [Function.update_of_ne same, findKey?_push_of_ne same]
      exact inStep.findKey other
  · intro other
    unfold findSymbol?
    simp only
    by_cases same : other = key
    · subst same
      rw [Function.update_self, findSymbol?_push_self]
      simp only
      rw [lookup_of_getElem? List.getElem?_concat_length]
      rfl
    · rw [Function.update_of_ne same, findSymbol?_push_of_ne same, ← inStep.findSymbol other]
      unfold findSymbol?
      cases place : parts.indexOf other with
      | none => rfl
      | some index =>
        simp only
        rw [inStep.findSymbol_append place]
  · simp only [SymbolTable.push, inStep.available]

/-- A call that adds a symbol gives the key that the table gives. -/
theorem InStep.addWithKey (inStep : parts.InStep table)
    (bounded : (table.addWithKey symbol key).2.KeysBounded) :
    ∃ after, parts.addWithKey symbol key = .ok ((table.addWithKey symbol key).1, after)
      ∧ after.InStep (table.addWithKey symbol key).2 := by
  have found : parts.keyOf symbol = table.findKey? symbol := inStep.findKey symbol
  unfold TableParts.addWithKey
  rw [found]
  cases known : table.findKey? symbol with
  | some existing =>
    rw [addWithKey_of_known known]
    exact ⟨parts, rfl, inStep⟩
  | none =>
    rw [addWithKey_of_new known] at bounded ⊢
    have member : key ∈ (table.push symbol key).keys := by simp [keys_push]
    obtain ⟨after, put, kept⟩ := inStep.put (findKey?_eq_none_iff.1 known) (bounded key member)
    refine ⟨after, ?_, kept⟩
    simp only
    rw [put]
    rfl

theorem InStep.after (inStep : parts.InStep table) {addition : Addition}
    (bounded : (table.after addition).KeysBounded) :
    ∃ later, parts.after addition = .ok later ∧ later.InStep (table.after addition) := by
  obtain ⟨symbol, _ | key⟩ := addition
  · obtain ⟨later, added, kept⟩ := inStep.addWithKey bounded
    refine ⟨later, ?_, kept⟩
    unfold TableParts.after TableParts.add
    simp only [inStep.available]
    rw [added]
    rfl
  · obtain ⟨later, added, kept⟩ := inStep.addWithKey bounded
    refine ⟨later, ?_, kept⟩
    unfold TableParts.after
    simp only
    rw [added]
    rfl

/-- Every call takes the parts along. -/
theorem InStep.afterAll (inStep : parts.InStep table) {additions : List Addition}
    (bounded : (table.afterAll additions).KeysBounded) :
    ∃ later, parts.afterAll additions = .ok later ∧ later.InStep (table.afterAll additions) := by
  induction additions generalizing parts table with
  | nil => exact ⟨parts, rfl, inStep⟩
  | cons addition rest ih =>
    have first : (table.after addition).KeysBounded := fun key member =>
      bounded key ((keys_prefix_afterAll (table.after addition) rest).subset member)
    obtain ⟨next, taken, kept⟩ := inStep.after first
    obtain ⟨later, all, last⟩ := ih kept bounded
    refine ⟨later, ?_, last⟩
    unfold TableParts.afterAll
    rw [List.foldlM_cons, taken, ok_bind]
    exact all

end TableParts

/-! ## Reading -/

section

variable {table : SymbolTable} {count : Nat} {source rest : Source}

/-- The reader puts no entry under a key that has a symbol already. -/
theorem SymbolTable.nodup_keys_of_readEntries {final : SymbolTable} (distinct : table.keys.Nodup)
    (h : SymbolTable.readEntries count table source = (.ok final, rest)) : final.keys.Nodup := by
  induction count generalizing table source with
  | zero =>
    cases h
    exact distinct
  | succ count ih =>
    unfold SymbolTable.readEntries at h
    obtain ⟨symbol, _, _, h⟩ := Reading.exists_of_bind_eq_ok h
    obtain ⟨key, _, _, h⟩ := Reading.exists_of_bind_eq_ok h
    obtain ⟨_, _, checked, h⟩ := Reading.exists_of_bind_eq_ok h
    obtain ⟨fresh, _⟩ := Reading.condition_of_require checked
    rw [Bool.and_eq_true, Option.isNone_iff_eq_none, Option.isNone_iff_eq_none,
      findSymbol?_eq_none_iff] at fresh
    exact ih (SymbolTable.nodup_keys_push distinct fresh.2 symbol) h

theorem CheckedReading.free_bind_of_ok {α β : Type} {x : Reading α} {d : α → CheckedReading β}
    {a : α} (read : x source = (.ok a, rest)) :
    (CheckedReading.free x >>= d) source = d a rest := by
  change CheckedReading.bind (CheckedReading.free x) d source = _
  unfold CheckedReading.bind CheckedReading.free
  rw [read]

theorem TableParts.step_bind_of_ok {next : Checked TableParts} {parts : TableParts}
    {d : TableParts → CheckedReading TableParts} (taken : next = .ok parts) :
    (step next >>= d) source = d parts source := by
  rw [taken]
  rfl

/-- By induction on the entries that are left, with the parts and the table generalized. -/
theorem TableParts.InStep.readEntries {parts : TableParts} {final : SymbolTable}
    (inStep : parts.InStep table) (distinct : table.keys.Nodup) (bounded : final.KeysBounded)
    (h : SymbolTable.readEntries count table source = (.ok final, rest)) :
    ∃ later, TableParts.readEntries count parts source = .ok (.ok later, rest)
      ∧ later.InStep final := by
  induction count generalizing table parts source with
  | zero =>
    cases h
    exact ⟨parts, rfl, inStep⟩
  | succ count ih =>
    unfold SymbolTable.readEntries at h
    obtain ⟨symbol, first, text, h⟩ := Reading.exists_of_bind_eq_ok h
    obtain ⟨key, second, number, h⟩ := Reading.exists_of_bind_eq_ok h
    obtain ⟨_, third, checked, later⟩ := Reading.exists_of_bind_eq_ok h
    obtain ⟨fresh, rfl⟩ := Reading.condition_of_require checked
    have known : parts.keyOf symbol = table.findKey? symbol := inStep.findKey symbol
    rw [Bool.and_eq_true, Option.isNone_iff_eq_none, Option.isNone_iff_eq_none,
      findKey?_eq_none_iff, findSymbol?_eq_none_iff] at fresh
    have further := SymbolTable.nodup_keys_push distinct fresh.2 symbol
    have room : key < Int64.maxValue := by
      refine bounded key ?_
      rw [SymbolTable.keys_of_readEntries later]
      simp [keys_push]
    obtain ⟨next, put, kept⟩ := inStep.put fresh.1 room
    obtain ⟨last, read, reached⟩ := ih kept further later
    refine ⟨last, ?_, reached⟩
    unfold TableParts.readEntries
    rw [CheckedReading.free_bind_of_ok text, CheckedReading.free_bind_of_ok number, known,
      inStep.isNone_indexOf, CheckedReading.free_bind_of_ok checked, step_bind_of_ok put]
    exact read

/-- A table that was read has no key twice, and its parts were read in step with it. -/
theorem TableParts.InStep.read (h : SymbolTable.read source = (.ok table, rest))
    (bounded : table.KeysBounded) :
    table.keys.Nodup ∧ ∃ parts, TableParts.read source = .ok (.ok parts, rest)
      ∧ parts.InStep table := by
  unfold SymbolTable.read at h
  obtain ⟨found, _, number, h⟩ := Reading.exists_of_bind_eq_ok h
  obtain ⟨_, _, matched, h⟩ := Reading.exists_of_bind_eq_ok h
  obtain ⟨name, _, text, h⟩ := Reading.exists_of_bind_eq_ok h
  obtain ⟨available, _, next, h⟩ := Reading.exists_of_bind_eq_ok h
  obtain ⟨size, _, counted, h⟩ := Reading.exists_of_bind_eq_ok h
  obtain ⟨_, _, nonneg, h⟩ := Reading.exists_of_bind_eq_ok h
  obtain ⟨before, _, entries, h⟩ := Reading.exists_of_bind_eq_ok h
  cases h
  have none_twice : (SymbolTable.empty name).keys.Nodup := List.nodup_nil
  have distinct := SymbolTable.nodup_keys_of_readEntries none_twice entries
  have room : before.KeysBounded := bounded
  obtain ⟨parts, read, inStep⟩ := (inStep_empty name).readEntries none_twice room entries
  refine ⟨distinct, { parts with available := max parts.available available }, ?_, ?_⟩
  · unfold TableParts.read
    rw [CheckedReading.free_bind_of_ok number, CheckedReading.free_bind_of_ok matched,
      CheckedReading.free_bind_of_ok text, CheckedReading.free_bind_of_ok next,
      CheckedReading.free_bind_of_ok counted, CheckedReading.free_bind_of_ok nonneg]
    change CheckedReading.bind _ _ _ = _
    unfold CheckedReading.bind
    rw [read]
    rfl
  · exact { inStep with available := congrArg (max · available) inStep.available }

end

/-! ## Look-ups -/

section

variable {α β : Type} [DecidableEq β] {values : List α} {f : α → β} {a : α} {b : β}

/-- Where no two values have the same name, looking a name up gives the value that has it. -/
theorem find?_eq_some_iff_of_nodup (distinct : (values.map f).Nodup) :
    values.find? (fun a => f a == b) = some a ↔ a ∈ values ∧ f a = b := by
  constructor
  · intro found
    have same : (f a == b) = true := List.find?_some (p := fun a => f a == b) found
    exact ⟨List.mem_of_find?_eq_some found, beq_iff_eq.1 same⟩
  · rintro ⟨member, rfl⟩
    cases found : values.find? (fun other => f other == f a) with
    | none => exact absurd (beq_self_eq_true (f a)) (List.find?_eq_none.1 found a member)
    | some other =>
      have same : (f other == f a) = true :=
        List.find?_some (p := fun other => f other == f a) found
      rw [List.inj_on_of_nodup_map distinct (List.mem_of_find?_eq_some found) member
        (beq_iff_eq.1 same)]

end

namespace SymbolTable

variable {table : SymbolTable} {symbol : String} {key : Int64}

theorem findKey?_eq_some_iff (distinct : table.symbols.Nodup) :
    table.findKey? symbol = some key ↔ (symbol, key) ∈ table.entries := by
  unfold findKey?
  simp only [Option.map_eq_some_iff, find?_eq_some_iff_of_nodup distinct]
  simp

theorem findSymbol?_eq_some_iff (distinct : table.keys.Nodup) :
    table.findSymbol? key = some symbol ↔ (symbol, key) ∈ table.entries := by
  have backwards : (table.entries.reverse.map (·.2)).Nodup := by
    rw [List.map_reverse]
    exact List.nodup_reverse.2 distinct
  unfold findSymbol?
  simp only [Option.map_eq_some_iff, find?_eq_some_iff_of_nodup backwards, List.mem_reverse]
  simp

/-- Symbols and keys determine each other as the entries say, and the next available key is not
negative and is above all keys. -/
structure Corresponds (table : SymbolTable) : Prop where
  findKey_iff : ∀ symbol key,
    table.findKey? symbol = some key ↔ (symbol, key) ∈ table.entries
  findSymbol_iff : ∀ symbol key,
    table.findSymbol? key = some symbol ↔ (symbol, key) ∈ table.entries
  symbols : table.symbols.Nodup
  keys : table.keys.Nodup
  nonneg : 0 ≤ table.availableKey
  above : ∀ key ∈ table.keys, key < table.availableKey

/-- The entries of a table are still there, in their places, and are found there. -/
structure Retains (table later : SymbolTable) : Prop where
  entries : table.entries <+: later.entries
  findKey : ∀ entry ∈ table.entries, later.findKey? entry.1 = some entry.2
  findSymbol : ∀ entry ∈ table.entries, later.findSymbol? entry.2 = some entry.1

theorem Reachable.corresponds (reachable : table.Reachable) (distinct : table.keys.Nodup)
    (bounded : table.KeysBounded) : table.Corresponds where
  findKey_iff _ _ := findKey?_eq_some_iff reachable.wellKept.symbols
  findSymbol_iff _ _ := findSymbol?_eq_some_iff distinct
  symbols := reachable.wellKept.symbols
  keys := distinct
  nonneg := (reachable.wellKept.available bounded).1
  above := (reachable.wellKept.available bounded).2

theorem entries_prefix_after (table : SymbolTable) (addition : Addition) :
    table.entries <+: (table.after addition).entries := by
  by_cases known : addition.symbol ∈ table.symbols
  · rw [after_of_known known]
  · rw [after_of_new known]
    exact List.prefix_append _ _

theorem entries_prefix_afterAll (table : SymbolTable) (additions : List Addition) :
    table.entries <+: (table.afterAll additions).entries := by
  induction additions generalizing table with
  | nil => exact List.prefix_rfl
  | cons addition rest ih => exact (entries_prefix_after table addition).trans (ih _)

/-- Where look-ups are by the entries, entries that are there are found. -/
theorem Corresponds.retains {later : SymbolTable} (corresponds : later.Corresponds)
    (front : table.entries <+: later.entries) : table.Retains later where
  entries := front
  findKey _ member := (corresponds.findKey_iff _ _).2 (front.subset member)
  findSymbol _ member := (corresponds.findSymbol_iff _ _).2 (front.subset member)

/-- The next available key has no symbol, and is the key of the next new symbol. -/
theorem Corresponds.add_of_new (corresponds : table.Corresponds) (new : symbol ∉ table.symbols) :
    (table.add symbol).1 ∉ table.keys
      ∧ (table.add symbol).2.entries = table.entries ++ [(symbol, (table.add symbol).1)] := by
  unfold add
  rw [addWithKey_of_new (findKey?_eq_none_iff.2 new)]
  refine ⟨fun taken => ?_, rfl⟩
  exact Int64.lt_irrefl (corresponds.above _ taken)

end SymbolTable

/-- How a table begins. -/
inductive TableBeginning where
  | empty (name : String)
  | read (source : Source)

namespace TableBeginning

def table : TableBeginning → Except Error SymbolTable
  | empty name => .ok (SymbolTable.empty name)
  | read source => (SymbolTable.read source).1

def parts : TableBeginning → Checked (Except Error TableParts)
  | empty name => .ok (.ok (TableParts.empty name))
  | read source => (·.1) <$> TableParts.read source

variable {beginning : TableBeginning} {table : SymbolTable}

theorem reachable_of_table (begun : beginning.table = .ok table) : table.Reachable := by
  cases beginning with
  | empty name =>
    cases begun
    exact Reachable.empty name
  | read source => exact Reachable.read (Prod.ext begun rfl)

theorem inStep_of_table (begun : beginning.table = .ok table) (bounded : table.KeysBounded) :
    table.keys.Nodup ∧ ∃ parts, beginning.parts = .ok (.ok parts) ∧ parts.InStep table := by
  cases beginning with
  | empty name =>
    cases begun
    exact ⟨List.nodup_nil, _, rfl, TableParts.inStep_empty name⟩
  | read source =>
    have whole : SymbolTable.read source = (.ok table, (SymbolTable.read source).2) :=
      Prod.ext begun rfl
    obtain ⟨distinct, parts, read, inStep⟩ := TableParts.InStep.read whole bounded
    refine ⟨distinct, parts, ?_, inStep⟩
    rw [TableBeginning.parts, read]
    rfl

end TableBeginning

/-- A table begins empty or as it is read from any source, and symbols are added to it, none of them
under a key that another symbol has. As long as the keys leave room for one above them: no step of
keeping its parts traps, and they are in step with its entries; symbols and keys determine each
other as the entries say; the next new symbol gets a key that no symbol has; and what was there
after any of the calls is there in the end, under the same key. -/
theorem symbols_correspond_to_keys {beginning : TableBeginning} {table : SymbolTable}
    (begun : beginning.table = .ok table) {additions : List Addition}
    (apart : table.areApart additions = true) (bounded : (table.afterAll additions).KeysBounded) :
    (∃ parts later, beginning.parts = .ok (.ok parts) ∧ parts.afterAll additions = .ok later
        ∧ later.InStep (table.afterAll additions))
      ∧ (table.afterAll additions).Corresponds
      ∧ (∀ symbol ∉ (table.afterAll additions).symbols,
        ((table.afterAll additions).add symbol).1 ∉ (table.afterAll additions).keys
          ∧ ((table.afterAll additions).add symbol).2.entries
            = (table.afterAll additions).entries
              ++ [(symbol, ((table.afterAll additions).add symbol).1)])
      ∧ ∀ earlier rest, additions = earlier ++ rest →
        (table.afterAll earlier).Retains (table.afterAll additions) := by
  have reachable := TableBeginning.reachable_of_table begun
  have room : table.KeysBounded := fun key member =>
    bounded key ((keys_prefix_afterAll table additions).subset member)
  obtain ⟨distinct, parts, kept, inStep⟩ := TableBeginning.inStep_of_table begun room
  obtain ⟨later, all, last⟩ := inStep.afterAll bounded
  have nodup := (areApart_iff_nodup_keys reachable bounded distinct).1 apart
  have corresponds := (reachable.afterAll additions).corresponds nodup bounded
  refine ⟨⟨parts, later, kept, all, last⟩, corresponds, fun symbol new => ?_, ?_⟩
  · exact corresponds.add_of_new new
  · rintro earlier rest rfl
    apply corresponds.retains
    unfold SymbolTable.afterAll
    rw [List.foldl_append]
    exact entries_prefix_afterAll _ rest

/-- Keys out of order and below zero, and a next key far above them. -/
def foundWords : SymbolTable := ⟨"words", [("world", 42), ("<eps>", 0), ("below", -7)], 100⟩

/-- The file form of the table. -/
def foundWordsFile : Source :=
  .ofBytes ((Writer.mk Sink.unlimited 0).writeAll foundWords.segments).2.sink.received

/-- A new symbol, one that is known, and new ones below and above all keys. -/
def lateWords : List SymbolTable.Addition :=
  [⟨"hello", none⟩, ⟨"world", some 5⟩, ⟨"deep", some (-9)⟩, ⟨"far", some 200⟩, ⟨"next", none⟩]

theorem symbols_correspond_to_keys_lateWords :
    (TableBeginning.read foundWordsFile).table = .ok foundWords
      ∧ foundWords.areApart lateWords = true
      ∧ (foundWords.afterAll lateWords).KeysBounded
      ∧ (foundWords.afterAll lateWords).entries
        = [("world", 42), ("<eps>", 0), ("below", -7), ("hello", 100), ("deep", -9), ("far", 200),
          ("next", 201)]
      ∧ (foundWords.afterAll lateWords).Corresponds
      ∧ foundWords.Retains (foundWords.afterAll lateWords) := by
  have begun : (TableBeginning.read foundWordsFile).table = .ok foundWords := by decide +kernel
  have apart : foundWords.areApart lateWords = true := by decide +kernel
  have bounded : (foundWords.afterAll lateWords).KeysBounded := by decide +kernel
  obtain ⟨_, corresponds, _, retains⟩ := symbols_correspond_to_keys begun apart bounded
  exact ⟨begun, apart, bounded, by decide +kernel, corresponds, retains [] lateWords rfl⟩

end Transducer
