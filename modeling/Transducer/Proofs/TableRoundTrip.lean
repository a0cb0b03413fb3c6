import Transducer.Proofs.FileForm
import Transducer.Proofs.SymbolTables
/-!
# Which symbol tables come back

A symbol table is built by adding symbols, each under the next available key or under one of the
caller's choice. Nothing but a long text keeps it from being written. The reader takes no key twice,
while a caller may put a new symbol under a key that has one already, so a table is read back
exactly if no symbol was added so (`areApart_iff_nodup_keys`). Main statement: the file form of
every table, and what reading it gives in either case (`reads_back`). The smallest table that is
lost has two symbols under one key (`not_reads_back_sharedKey`).
-/
namespace Transducer

open Segment Reading

namespace SymbolTable

/-! ## Reading tables whose keys are not distinct -/

theorem unpadded_segments (table : SymbolTable) (alignment : Nat) :
    .aligned alignment ∉ table.segments := by
  have text (s : String) : .aligned alignment ∉ Segment.text s := by
    unfold Segment.text
    simp only
    split <;> simp [Segment.value]
  simp [SymbolTable.segments, Segment.value, text]

/-- Entries are refused at the first key that comes again. -/
theorem refuses_readEntries (lends : Bool) (table : SymbolTable) (entries : List (String × Int64))
    (symbols : (table.symbols ++ entries.map (·.1)).Nodup) (keys : table.keys.Nodup)
    (again : ¬ (table.keys ++ entries.map (·.2)).Nodup) :
    ∃ entry ∈ entries, (readEntries entries.length table).Refuses lends
      (entries.flatMap fun entry => Segment.text entry.1 ++ [.value Layout.int64 entry.2])
      (.badSymbols (.duplicate entry.1 entry.2)) := by
  induction entries generalizing table with
  | nil =>
    rw [List.map_nil, List.append_nil] at again
    exact absurd keys again
  | cons entry entries ih =>
    obtain ⟨symbol, key⟩ := entry
    rw [List.map_cons, List.append_cons] at symbols again
    have new_symbol : table.findKey? symbol = none := findKey?_eq_none_iff.2 fun known =>
      (List.nodup_append.1 (List.nodup_append.1 symbols).1).2.2 symbol known symbol
        (List.mem_singleton_self symbol) rfl
    by_cases known : key ∈ table.keys
    · have taken : ((table.findKey? symbol).isNone && (table.findSymbol? key).isNone) = false := by
        rw [new_symbol, Option.isNone_none, Bool.true_and, Option.isNone_eq_false_iff,
          ← Option.ne_none_iff_isSome, Ne, findSymbol?_eq_none_iff]
        exact fun absent => absent known
      refine ⟨(symbol, key), List.mem_cons_self, ?_⟩
      rw [List.flatMap_cons, List.append_assoc]
      refine (undoes_text symbol).bind_refuses ((undoes_value Layout.int64 key).bind_refuses ?_)
      exact refuses_require taken _ _ _
    · have fresh : ((table.findKey? symbol).isNone && (table.findSymbol? key).isNone) = true := by
        rw [new_symbol, findSymbol?_eq_none_iff.2 known]
        rfl
      have distinct := nodup_keys_push keys known symbol
      rw [← symbols_push table symbol key] at symbols
      rw [← keys_push table symbol key] at again
      obtain ⟨entry, member, refused⟩ := ih _ symbols distinct again
      refine ⟨entry, List.mem_cons_of_mem _ member, ?_⟩
      rw [List.flatMap_cons, List.append_assoc]
      refine (undoes_text symbol).bind_refuses ((undoes_value Layout.int64 key).bind_refuses ?_)
      exact Refuses.require fresh refused

/-- A table with a key that comes again is refused on account of one of its entries. -/
theorem refuses_read {lends : Bool} {table : SymbolTable} (reachable : table.Reachable)
    (again : ¬ table.keys.Nodup) {position : Nat} {bytes : List UInt8}
    (emitted : Emits position table.segments bytes) (short : position + bytes.length < fileLimit) :
    ∃ entry ∈ table.entries, SymbolTable.read.Refuses lends table.segments
      (.badSymbols (.duplicate entry.1 entry.2)) := by
  obtain ⟨count_ok, count_back⟩ := count_of_size_lt (size_lt_of_emits emitted short)
  obtain ⟨entry, member, refused⟩ := refuses_readEntries lends (empty table.name) table.entries
    reachable.wellKept.symbols List.nodup_nil again
  rw [← count_back] at refused
  refine ⟨entry, member, ?_⟩
  rw [segments_eq]
  refine (undoes_value Layout.int32 magic).bind_refuses
    (Refuses.require (beq_self_eq_true magic) ?_)
  refine (undoes_text table.name).bind_refuses ((undoes_value Layout.int64 _).bind_refuses ?_)
  exact (undoes_value Layout.int64 _).bind_refuses (Refuses.require count_ok (refused.bind _))

/-! ## Tables that are built -/

/-- A symbol to be added, under a key of the caller's choice or under the next one. -/
structure Addition where
  symbol : String
  key : Option Int64

/-- A table after the call that adds a symbol. -/
def after (table : SymbolTable) (addition : Addition) : SymbolTable :=
  match addition.key with
  | some key => (table.addWithKey addition.symbol key).2
  | none => (table.add addition.symbol).2

/-- A table after some such calls. -/
def afterAll (table : SymbolTable) (additions : List Addition) : SymbolTable :=
  additions.foldl after table

/-- The symbol is known, or is not put under a key that has a symbol already. -/
def isApart (table : SymbolTable) (addition : Addition) : Bool :=
  (table.findKey? addition.symbol).isSome
    || addition.key.all fun key => (table.findSymbol? key).isNone

def areApart (table : SymbolTable) : List Addition → Bool
  | [] => true
  | addition :: rest => table.isApart addition && (table.after addition).areApart rest

/-- The key under which a symbol is put. -/
def keyOf (table : SymbolTable) (addition : Addition) : Int64 :=
  addition.key.getD table.availableKey

variable {table : SymbolTable} {addition : Addition} {additions : List Addition}

theorem after_eq (table : SymbolTable) (addition : Addition) :
    table.after addition = (table.addWithKey addition.symbol (table.keyOf addition)).2 := by
  obtain ⟨symbol, _ | key⟩ := addition <;> rfl

theorem after_of_known (known : addition.symbol ∈ table.symbols) :
    table.after addition = table := by
  rw [after_eq]
  unfold addWithKey
  split
  · rfl
  · rename_i unknown
    exact absurd known (findKey?_eq_none_iff.1 unknown)

theorem after_of_new (new : addition.symbol ∉ table.symbols) :
    table.after addition = table.push addition.symbol (table.keyOf addition) := by
  rw [after_eq, addWithKey_of_new (findKey?_eq_none_iff.2 new)]

theorem isApart_of_known (known : addition.symbol ∈ table.symbols) :
    table.isApart addition = true := by
  have found : (table.findKey? addition.symbol).isSome = true := by
    rw [← Option.ne_none_iff_isSome, Ne, findKey?_eq_none_iff]
    exact fun new => new known
  rw [isApart, found, Bool.true_or]

/-- The next available key has no symbol, so only a key of the caller's choice can have one. -/
theorem isApart_iff_of_new (kept : table.WellKept) (bounded : table.KeysBounded)
    (new : addition.symbol ∉ table.symbols) :
    table.isApart addition = true ↔ table.keyOf addition ∉ table.keys := by
  unfold isApart keyOf
  rw [findKey?_eq_none_iff.2 new]
  cases addition.key with
  | none =>
    refine iff_of_true rfl fun taken => ?_
    exact Int64.lt_irrefl ((kept.available bounded).2 _ taken)
  | some key =>
    simp only [Option.isSome_none, Bool.false_or, Option.all_some, Option.getD_some,
      Option.isNone_iff_eq_none, findSymbol?_eq_none_iff]

theorem Reachable.after (reachable : table.Reachable) (addition : Addition) :
    (table.after addition).Reachable := by
  rw [after_eq]
  exact reachable.addWithKey _ _

theorem Reachable.afterAll (reachable : table.Reachable) (additions : List Addition) :
    (table.afterAll additions).Reachable := by
  induction additions generalizing table with
  | nil => exact reachable
  | cons addition rest ih => exact ih (reachable.after addition)

/-- Keys that a table has stay in front. -/
theorem keys_prefix_afterAll (table : SymbolTable) (additions : List Addition) :
    table.keys <+: (table.afterAll additions).keys := by
  induction additions generalizing table with
  | nil => exact List.prefix_rfl
  | cons addition rest ih =>
    have step : table.keys <+: (table.after addition).keys := by
      by_cases known : addition.symbol ∈ table.symbols
      · exact ⟨[], by rw [after_of_known known, List.append_nil]⟩
      · rw [after_of_new known, keys_push]
        exact List.prefix_append _ _
    exact step.trans (ih (table.after addition))

/-- The keys are distinct exactly if no new symbol was put under a key that had one. -/
theorem areApart_iff_nodup_keys (reachable : table.Reachable)
    (bounded : (table.afterAll additions).KeysBounded) (distinct : table.keys.Nodup) :
    table.areApart additions = true ↔ (table.afterAll additions).keys.Nodup := by
  induction additions generalizing table with
  | nil => exact iff_of_true rfl distinct
  | cons addition rest ih =>
    rw [areApart, Bool.and_eq_true]
    by_cases known : addition.symbol ∈ table.symbols
    · change _ ∧ _ ↔ ((table.after addition).afterAll rest).keys.Nodup
      change ((table.after addition).afterAll rest).KeysBounded at bounded
      rw [isApart_of_known known, after_of_known known] at *
      rw [ih reachable bounded distinct]
      exact and_iff_right rfl
    · have start := (keys_prefix_afterAll table (addition :: rest)).subset
      have room : table.KeysBounded := fun key member => bounded key (start member)
      have keys : (table.after addition).keys = table.keys ++ [table.keyOf addition] := by
        rw [after_of_new known, keys_push]
      rw [isApart_iff_of_new reachable.wellKept room known]
      by_cases taken : table.keyOf addition ∈ table.keys
      · refine iff_of_false (fun both => both.1 taken) fun nodup => ?_
        have front := nodup.sublist (keys_prefix_afterAll (table.after addition) rest).sublist
        rw [keys, List.nodup_append] at front
        exact front.2.2 _ taken _ (List.mem_singleton_self _) rfl
      · have further : (table.after addition).keys.Nodup := by
          rw [keys, ← List.concat_eq_append]
          exact distinct.concat taken
        rw [ih (reachable.after addition) bounded further]
        exact and_iff_right taken

end SymbolTable

/-- A table whose texts and keys leave room is written wherever a writer stands. Reading its bytes
gives the table back, and takes exactly them, if no new symbol was put under a key that had one.
Otherwise reading stops at an entry that it takes for a duplicate. -/
theorem reads_back (name : String) (additions : List SymbolTable.Addition)
    (bounded : ((SymbolTable.empty name).afterAll additions).KeysBounded)
    (texts : ((SymbolTable.empty name).afterAll additions).TextsFit) (w : Writer)
    (unlimited : w.sink.room = none) :
    ∃ bytes,
      w.writeAll ((SymbolTable.empty name).afterAll additions).segments = (.ok (), w.pushed bytes)
        ∧ ∀ lends source position rest, position + bytes.length < fileLimit →
          source.Ahead lends position (bytes ++ rest) →
            ((SymbolTable.empty name).areApart additions = true → ∃ after,
              SymbolTable.read source = (.ok ((SymbolTable.empty name).afterAll additions), after)
                ∧ after.Ahead lends (position + bytes.length) rest)
            ∧ ((SymbolTable.empty name).areApart additions = false →
              ∃ entry ∈ ((SymbolTable.empty name).afterAll additions).entries, ∃ after,
                SymbolTable.read source
                  = (.error (.badSymbols (.duplicate entry.1 entry.2)), after)) := by
  have reachable := (SymbolTable.Reachable.empty name).afterAll additions
  have distinct := SymbolTable.areApart_iff_nodup_keys (.empty name) bounded List.nodup_nil
  obtain ⟨bytes, emitted⟩ := (exists_emits_iff w.position).2
    (SymbolTable.writable_segments_iff.2 texts)
  refine ⟨bytes, Writer.writeAll_of_emits emitted unlimited, ?_⟩
  intro lends source position rest short ahead
  have here := emitted.elsewhere (SymbolTable.unpadded_segments _) position
  constructor
  · intro apart
    exact SymbolTable.undoes_read reachable (distinct.1 apart) bounded position bytes here short
      source rest ahead
  · intro shared
    have again : ¬ ((SymbolTable.empty name).afterAll additions).keys.Nodup := fun nodup => by
      rw [distinct.2 nodup] at shared
      cases shared
    obtain ⟨entry, member, refused⟩ := SymbolTable.refuses_read reachable again here short
    exact ⟨entry, member, refused position bytes here short source rest ahead⟩

/-- Keys that are skipped and a symbol that is known are no hindrance. -/
def sparseWords : List SymbolTable.Addition :=
  [⟨"<eps>", none⟩, ⟨"world", some 42⟩, ⟨"hello", none⟩, ⟨"world", some 42⟩, ⟨"below", some (-7)⟩]

theorem reads_back_sparseWords :
    ((SymbolTable.empty "words").afterAll sparseWords).entries
        = [("<eps>", 0), ("world", 42), ("hello", 43), ("below", -7)]
      ∧ ∃ bytes after, (Writer.mk Sink.unlimited 0).writeAll
          ((SymbolTable.empty "words").afterAll sparseWords).segments
            = (.ok (), (Writer.mk Sink.unlimited 0).pushed bytes)
        ∧ SymbolTable.read (.ofBytes bytes)
          = (.ok ((SymbolTable.empty "words").afterAll sparseWords), after) := by
  have short : ((Writer.mk Sink.unlimited 0).writeAll
      ((SymbolTable.empty "words").afterAll sparseWords).segments).2.sink.received.length
        < fileLimit := by
    decide +kernel
  obtain ⟨bytes, written, back⟩ := reads_back "words" sparseWords (by decide +kernel)
    (by decide +kernel) ⟨Sink.unlimited, 0⟩ rfl
  rw [written] at short
  have ahead : (Source.ofBytes bytes).Ahead false 0 (bytes ++ []) := by
    rw [List.append_nil]
    exact Source.ahead_ofBytes bytes
  have small : 0 + bytes.length < fileLimit := by
    rw [Nat.zero_add]
    exact short
  obtain ⟨after, read, _⟩ := (back false _ 0 [] small ahead).1 (by decide +kernel)
  exact ⟨by decide +kernel, bytes, after, written, read⟩

/-- Two symbols under one key. -/
def sharedKey : List SymbolTable.Addition := [⟨"a", some 5⟩, ⟨"b", some 5⟩]

/-- The bytes of the table are refused on account of its second symbol. -/
theorem not_reads_back_sharedKey :
    ((SymbolTable.empty "t").afterAll sharedKey).KeysBounded
      ∧ ((SymbolTable.empty "t").afterAll sharedKey).TextsFit
      ∧ ((Writer.mk Sink.unlimited 0).writeAll
        ((SymbolTable.empty "t").afterAll sharedKey).segments).1 = .ok ()
      ∧ (SymbolTable.read (.ofBytes ((Writer.mk Sink.unlimited 0).writeAll
          ((SymbolTable.empty "t").afterAll sharedKey).segments).2.sink.received)).1
        = .error (.badSymbols (.duplicate "b" 5)) := by
  decide +kernel

end Transducer
